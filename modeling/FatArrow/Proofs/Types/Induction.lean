import FatArrow.Types.HostType

/-!
# Induction over types

The hypothesis for the arguments of a type is that it holds of each of them.
-/

namespace FatArrow.HostType

/-- Induction over types. -/
@[induction_eliminator]
theorem induction {motive : HostType → Prop}
    (mk : ∀ shape args nullable, (∀ a ∈ args, motive a) → motive ⟨shape, args, nullable⟩)
    (t : HostType) : motive t :=
  @HostType.rec motive (fun ts => ∀ t ∈ ts, motive t) mk nofun
    (fun _ _ first rest => List.forall_mem_cons.mpr ⟨first, rest⟩) t

end FatArrow.HostType
