import WebhookBroadcast.Action

/-!
# The delivery queue

`BullMqDeliveryQueue` of `apps/api/src/deliveryQueue.ts`: how a work item gets
into the queue although its job id may still be taken by a finished job.
-/

namespace WebhookBroadcast

open Interaction

/-- Removes the job of a Delivery if it will not run again. -/
def removeFinishedJob (deliveryId : Uuid) : Action Unit := do
  let existing ← queueCall (.getJob deliveryId)
  if !existing then
    return ()
  else
    let state ← queueCall (.getState deliveryId)
    if state = some .completed ∨ state = some .failed then
      queueCall (.remove deliveryId)
    else
      return ()

/-- `enqueue`: the job id is the Delivery id, so that `add` does nothing while
a job of the Delivery is there. -/
def enqueue (maxAttempts : ℕ) (workItem : DeliveryWorkItem) : Action Unit := do
  removeFinishedJob workItem.deliveryId
  queueCall (.add workItem.deliveryId maxAttempts workItem)

end WebhookBroadcast
