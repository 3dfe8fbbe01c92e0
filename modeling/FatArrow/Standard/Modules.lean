import FatArrow.Registry.Lineage
import FatArrow.Standard.Identity
import FatArrow.Standard.Numbers
import FatArrow.Standard.Primitives
import FatArrow.Standard.Sequences
import FatArrow.Standard.Time

/-!
The standard modules in the order of their installation.
-/

namespace FatArrow.Standard

/-- Every standard module. -/
def modules (around : Surroundings) : List HostModule := [
  primitives, texts, numbers, time around, identifiers around, cultures around, collections,
  sequenceOperations]

end FatArrow.Standard
