import Mathlib.Data.List.Nodup
import NamelessOS.Pmm
import NamelessOS.Runs

/-!
# Every frame has one owner

The allocator after `pmm_init`, with the addresses it has handed out and not
taken back as ghost state.  The frames below 4 GiB fall into three kinds that
never mix: reserved ones (frame 0 and the kernel image), live ones, and the
clear bits.  An allocation moves a clear bit to the live ones, a free of a
live frame moves it back, and nothing ever clears a reserved bit.
-/

namespace Pmm

open WordBitmap Runs List BitVec
open BitVec (ofNat)

/-- The allocator and the addresses its callers hold. -/
structure Owners where
  pmm : PmmState
  live : List U64

inductive PmmCall
  | alloc
  | free (phys : U64)

def ownStep (s : Owners) : PmmCall → Owners
  | .alloc =>
    let r := pmmAllocFrame s.pmm
    { pmm := r.1, live := if r.2 = 0#64 then s.live else r.2 :: s.live }
  | .free phys => { pmm := pmmFreeFrame s.pmm phys, live := s.live.erase phys }

/-- Callers free only what they hold. -/
def FreesOwned (s : Owners) (call : PmmCall) : Prop := ∀ phys, call = .free phys → phys ∈ s.live

/-- Frame 0 and the frames of `[0x100000, __kernel_end)`. -/
def Reserved (img : KernelImage) (f : Nat) : Prop :=
  f = 0 ∨ (0x100000 ≤ f * frameSize ∧ f * frameSize < img.kendPhys.toNat)

/-! ## Boot leaves the reserved frames set -/

theorem kendPhys_bounds (img : KernelImage) :
    0x100000 ≤ img.kendPhys.toNat ∧ img.kendPhys.toNat < 2 ^ 31 := by
  have hload := le_def.mp img.loaded
  have hvma : kernelVma.toNat = 0xFFFFFFFF80000000 := rfl
  have hsum : (kernelVma + 0x100000#64).toNat = 0xFFFFFFFF80100000 := rfl
  have hsub : img.kendPhys.toNat = img.kernelEnd.toNat - kernelVma.toNat := by
    unfold KernelImage.kendPhys
    apply toNat_sub_of_le
    rw [le_def]
    omega
  omega

variable {f fuel : Nat}

/-- The range taken back for the image covers its frames. -/
theorem image_frames_marked (img : KernelImage) (hmax : f < pmmMaxFrames)
    (hlow : 0x100000 ≤ f * frameSize) (hhigh : f * frameSize < img.kendPhys.toNat) :
    f ∈ frameRange (0x100000#64 / 4096#64)
      ((0x100000#64 + (img.kendPhys - 0x100000#64) + 4096#64 - 1#64) / 4096#64) := by
  obtain ⟨-, hkend⟩ := kendPhys_bounds img
  have hsize : frameSize = 4096 := rfl
  have hend : 0x100000#64 + (img.kendPhys - 0x100000#64) + 4096#64 - 1#64 =
      img.kendPhys + 4095#64 := by bv_omega
  have hfirst : (0x100000#64 / 4096#64 : U64).toNat = 256 := rfl
  have hpast : ((img.kendPhys + 4095#64) / 4096#64).toNat = (img.kendPhys.toNat + 4095) / 4096 := by
    rw [toNat_udiv, toNat_add_of_lt (by simp; omega)]
    rfl
  rw [hsize] at hlow hhigh
  rw [mem_frameRange, hend, hfirst, hpast]
  omega

/-- After the last phase of `pmm_init` every reserved frame is set, whatever
the memory map cleared. -/
theorem reserveKernel_reserved (img : KernelImage) (s : PmmState)
    (hmax : f < pmmMaxFrames) (h : Reserved img f) :
    test (reserveKernel img s).bitmap f = true := by
  unfold reserveKernel
  apply markRangeUsed_keeps
  rcases h with rfl | ⟨hlow, hhigh⟩
  · apply markRangeUsed_keeps
    simp
  · exact markRangeUsed_covers _ (image_frames_marked img hmax hlow hhigh)

/-- The state in which the walk over the memory map ends. -/
def mappedFrames (mem : U64 → U8) (fuel : Nat) (s : PmmState) : Option PmmState :=
  walkTags mem (s.mb2InfoPhys + (readU32 mem s.mb2InfoPhys).setWidth 64) fuel
    (s.mb2InfoPhys + 8#64)
    { s with
      bitmap := fun _ => ~~~0#64
      totalFrames := ofNat 64 pmmMaxFrames
      freeFrames := 0#64 }

/-- An accepted memory map ends in `reserveKernel`. -/
theorem pmmInit_accepted {img : KernelImage} {mem : U64 → U8} {s₀ s : PmmState}
    (h : pmmInit img mem fuel s₀ = some (s, 0)) :
    ∃ walked, mappedFrames mem fuel s₀ = some walked ∧ s = reserveKernel img walked := by
  unfold pmmInit at h
  dsimp only at h
  split at h
  · cases h
  · obtain ⟨walked, hwalk, heq⟩ := Option.map_eq_some_iff.mp h
    cases heq
    exact ⟨walked, hwalk, rfl⟩

/-! ## The ownership invariant -/

/-- The address `phys` is that of a set, unreserved frame. -/
def HeldFrame (img : KernelImage) (s : PmmState) (phys : U64) (f : Nat) : Prop :=
  f < pmmMaxFrames ∧ phys = ofNat 64 (f * frameSize) ∧ test s.bitmap f = true ∧ ¬ Reserved img f

structure Separated (img : KernelImage) (s : Owners) : Prop where
  reserved : ∀ f < pmmMaxFrames, Reserved img f → test s.pmm.bitmap f = true
  held : ∀ phys ∈ s.live, ∃ f, HeldFrame img s.pmm phys f
  nodup : s.live.Nodup

variable {img : KernelImage} {s : Owners}

section

variable (h : Separated img s)
include h

/-- A clear bit belongs to no owner and is not reserved. -/
theorem Separated.clear_unowned {f : Nat} (hmax : f < pmmMaxFrames)
    (hclear : test s.pmm.bitmap f = false) :
    ¬ Reserved img f ∧ ofNat 64 (f * frameSize) ∉ s.live := by
  constructor
  · intro hres
    rw [h.reserved f hmax hres] at hclear
    cases hclear
  · intro hmem
    obtain ⟨g, hg, haddr, hset, -⟩ := h.held _ hmem
    rw [address_injective hmax hg haddr, hset] at hclear
    cases hclear

theorem Separated.alloc : Separated img (ownStep s .alloc) := by
  have hout := pmmAllocFrame_outcome s.pmm
  unfold ownStep
  generalize pmmAllocFrame s.pmm = r at hout ⊢
  cases hout with
  | full => exact h
  | frame f hmax hclear =>
    obtain ⟨hfree, hnew⟩ := h.clear_unowned hmax hclear
    have hne := address_ne_zero hmax (fun h0 => hfree (.inl h0))
    dsimp only
    rw [if_neg hne]
    refine ⟨?_, ?_, nodup_cons.mpr ⟨hnew, h.nodup⟩⟩
    · intro g hg hres
      simp [h.reserved g hg hres]
    · intro phys hmem
      rcases mem_cons.mp hmem with rfl | hmem
      · exact ⟨f, hmax, rfl, by simp, hfree⟩
      · obtain ⟨g, hg, haddr, hset, hres⟩ := h.held phys hmem
        exact ⟨g, hg, haddr, by simp [hset], hres⟩

theorem Separated.free {phys : U64} (hlive : phys ∈ s.live) :
    Separated img (ownStep s (.free phys)) := by
  obtain ⟨f, hmax, rfl, hset, hfree⟩ := h.held _ hlive
  have htest : ∀ g, g ≠ f → test s.pmm.bitmap g = true →
      test (pmmFreeFrame s.pmm (ofNat 64 (f * frameSize))).bitmap g = true := by
    intro g hne hg
    rw [test_pmmFreeFrame _ _ _ (by rwa [frameOf_address hmax]), frameOf_address hmax]
    simp [hne, hg]
  refine ⟨?_, ?_, h.nodup.erase _⟩
  · intro g hg hres
    refine htest g ?_ (h.reserved g hg hres)
    rintro rfl
    exact hfree hres
  · intro other hmem
    obtain ⟨hne, hother⟩ := h.nodup.mem_erase_iff.mp hmem
    obtain ⟨g, hg, rfl, hgset, hres⟩ := h.held other hother
    refine ⟨g, hg, rfl, htest g ?_ hgset, hres⟩
    rintro rfl
    exact hne rfl

/-- One call keeps the three kinds of frames apart. -/
theorem Separated.step {call : PmmCall} (howned : FreesOwned s call) :
    Separated img (ownStep s call) := by
  cases call with
  | alloc => exact h.alloc
  | free phys => exact h.free (howned phys rfl)

end

/-! ## What an allocation returns -/

/-- A result of `pmm_alloc_frame`, judged in the state before the call. -/
structure SoundResult (img : KernelImage) (s : Owners) (phys : U64) : Prop where
  aligned : phys ≠ 0#64 → phys.toNat % 4096 = 0
  below : phys ≠ 0#64 → phys.toNat < 4 * 1024 * 1024 * 1024
  wasFree : phys ≠ 0#64 → test s.pmm.bitmap (frameOf phys) = false
  notLive : phys ≠ 0#64 → phys ∉ s.live
  notReserved : phys ≠ 0#64 → ¬ Reserved img (frameOf phys)
  fails_iff : phys = 0#64 ↔ ∀ f < pmmMaxFrames, test s.pmm.bitmap f = true

/-- Every allocation of the run is sound. -/
def AllocSound (img : KernelImage) (s : Owners) (call : PmmCall) : Prop :=
  call = .alloc → SoundResult img s (pmmAllocFrame s.pmm).2

theorem Separated.alloc_sound (h : Separated img s) :
    SoundResult img s (pmmAllocFrame s.pmm).2 := by
  have hout := pmmAllocFrame_outcome s.pmm
  generalize pmmAllocFrame s.pmm = r at hout ⊢
  cases hout with
  | full hfull =>
    refine ⟨?_, ?_, ?_, ?_, ?_, fun _ => hfull, fun _ => rfl⟩ <;>
      exact fun hne => absurd rfl hne
  | frame f hmax hclear =>
    obtain ⟨hfree, hnew⟩ := h.clear_unowned hmax hclear
    have hne := address_ne_zero hmax (fun h0 => hfree (.inl h0))
    have haddr := frame_address hmax
    have hframe := frameOf_address hmax
    unfold frameSize at haddr
    unfold pmmMaxFrames at hmax
    refine ⟨fun _ => ?_, fun _ => ?_, fun _ => ?_, fun _ => hnew, fun _ => ?_, ?_⟩
    · rw [frameSize, haddr]
      omega
    · rw [frameSize, haddr]
      omega
    · rwa [hframe]
    · rwa [hframe]
    · refine ⟨fun h0 => absurd h0 hne, fun hall => ?_⟩
      rw [hall f hmax] at hclear
      cases hclear

/-- The state in which `pmm_init` hands the allocator over. -/
theorem separated_boot {mem : U64 → U8} {s₀ s : PmmState}
    (h : pmmInit img mem fuel s₀ = some (s, 0)) : Separated img ⟨s, []⟩ := by
  obtain ⟨walked, -, rfl⟩ := pmmInit_accepted h
  refine ⟨fun f hmax hres => reserveKernel_reserved img walked hmax hres, ?_, nodup_nil⟩
  intro phys hmem
  cases hmem

/-- **Frame ownership.**  After any accepted memory map and any run of
allocations and of frees of live frames, every result of `pmm_alloc_frame` is
sound. -/
theorem frames_owned_once {mem : U64 → U8} {fuel : Nat} {s₀ s : PmmState}
    (hinit : pmmInit img mem fuel s₀ = some (s, 0)) (calls : List PmmCall)
    (howned : StepsMeet ownStep FreesOwned ⟨s, []⟩ calls) :
    StepsMeet ownStep (AllocSound img) ⟨s, []⟩ calls :=
  stepsMeet_of_invariant (Separated img) (fun _ _ h hok => h.step hok)
    (fun _ call h _ (_ : call = .alloc) => h.alloc_sound) (separated_boot hinit) howned

/-- An information block at `0x9000` with one available region: two frames at
`0x200000`. -/
def oneRegionMap (a : U64) : U8 := [56, 0, 0, 0, 0, 0, 0, 0,
    6, 0, 0, 0, 40, 0, 0, 0, 24, 0, 0, 0, 0, 0, 0, 0,
    0, 0, 0x20, 0, 0, 0, 0, 0, 0, 0x20, 0, 0, 0, 0, 0, 0, 1, 0, 0, 0, 0, 0, 0, 0,
    0, 0, 0, 0, 8, 0, 0, 0].getD (a - 0x9000#64).toNat 0

def smallImage : KernelImage where
  kernelEnd := 0xFFFFFFFF80103000#64
  bitmapAddr := 0xFFFFFFFF80101000#64
  loaded := by decide

def oneRegionInit : Option (PmmState × Int) := pmmInit smallImage oneRegionMap 4
    { bitmap := fun _ => 0#64, totalFrames := 0#64, freeFrames := 0#64, mb2InfoPhys := 0x9000#64 }

def oneRegionBoot : PmmState := (oneRegionInit.getD default).1

theorem accepted_of_returns_zero {r : Option (PmmState × Int)}
    (h : r.map Prod.snd = some 0) : r = some ((r.getD default).1, 0) := by
  obtain ⟨r, rfl, h0⟩ := Option.map_eq_some_iff.mp h
  rw [← h0]
  rfl

theorem oneRegionInit_accepted : oneRegionInit = some (oneRegionBoot, 0) :=
  accepted_of_returns_zero (by decide +kernel)

theorem frames_owned_once_oneRegion : StepsMeet ownStep (AllocSound smallImage) ⟨oneRegionBoot, []⟩
      [.alloc, .free 0x200000#64, .alloc, .alloc, .alloc] := by
  refine frames_owned_once oneRegionInit_accepted _ ⟨?_, ?_, ?_, ?_, ?_, trivial⟩ <;>
    intro phys hcall <;> cases hcall
  show 0x200000#64 ∈ (ownStep ⟨oneRegionBoot, []⟩ .alloc).live
  decide +kernel

end Pmm
