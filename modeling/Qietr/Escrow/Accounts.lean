import Qietr.Escrow.Program
import Qietr.Library.Borsh

/-!
# Escrow — the account of a job as bytes

What Anchor keeps: eight bytes for the struct, then its fields in borsh.

* `JOB_DISC`: the eight bytes.
* `Job.data`: all of them; `Job.length_data`: how many.
-/

namespace Qietr.Escrow

open Borsh

/-- The first eight bytes of the SHA-256 of `account:Job`. -/
def JOB_DISC : List UInt8 := [0x4b, 0x7c, 0x50, 0xcb, 0xa1, 0xb4, 0xca, 0x50]

/-- The index of the variant. -/
def JobState.variant : JobState → UInt8
  | .created => 0
  | .accepted => 1
  | .completed => 2
  | .released => 3
  | .disputed => 4
  | .refunded => 5

/-- The fields, one after the other. -/
def Job.write (job : Job) : List UInt8 :=
  job.client.toList ++ (job.agent.toList ++ (job.nonce.toList ++ (writeU64 job.priceMicro ++
    (writeI64 (.ofInt job.createdAt) ++ (writeI64 (.ofInt job.acceptedAt) ++
      (writeI64 (.ofInt job.completedAt) ++ (writeI64 (.ofInt job.resolvedAt) ++
        (writeU8 job.state.variant ++ (writeU8 job.bump ++ writeU8 job.escrowBump)))))))))

def Job.data (job : Job) : List UInt8 :=
  JOB_DISC ++ job.write

theorem Job.length_data (job : Job) : job.data.length = 123 := by
  simp [Job.data, Job.write, JOB_DISC]

end Qietr.Escrow
