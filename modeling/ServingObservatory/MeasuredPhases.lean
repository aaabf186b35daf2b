import ServingObservatory.AuthoritySpan
import ServingObservatory.PhaseSlots

/-!
# What is called measured

A phase between two observations is measured when both are on the receive clock. A phase
at a single observation copies its provenance instead, whatever clock its time is on.
-/
namespace ServingObservatory
open Std Sorting

section Origins
variable (v : List Observation)

variable {v}

end Origins

section Labels
variable (v : List Observation)

variable {v}

section Arrival
variable {r q : Observation}

end Arrival

end Labels

end ServingObservatory
