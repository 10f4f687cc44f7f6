import OpenIon.Platform.RiscvGeneric.Superpages

/-! # Superpages with empty permissions

An entry without R, W and X is a link to a table. So a superpage with empty permissions is not
mapped: its entry leads to the page at its own address as if that were a table. The memory here has
room for one superpage only, and zeros in that page.
-/
namespace OpenIon.Platform.RiscvGeneric
open Mm Lib Arch.Riscv Arch.Riscv.Sv39

/-- All pages of the superpage at this address have empty permissions. -/
def EmptySuperpage (permsFor : ℕ → Option MemPerms) (block : ℕ) : Prop :=
  ∀ k, pageSize * k < superpageSize → permsFor (block + pageSize * k) = some ⟨false, false, false⟩

def SameSuperpage (u v : ℕ) : Prop := vpn u 2 = vpn v 2 ∧ vpn u 1 = vpn v 1

def fullEntry : ℕ := leafEntry ⟨true, true, false⟩ 0

/-- A root at 4096 and a table at 8192 that map everything but one superpage. -/
def hole (block : ℕ) : Memory where
  words a :=
    if 4096 ≤ a ∧ a < 8192 then if a = 4096 + 8 * vpn block 2 then tableEntry 8192 else fullEntry
    else if 8192 ≤ a ∧ a < 12288 then if a = 8192 + 8 * vpn block 1 then 0 else fullEntry
    else 0
  frames _ := none
  requests := 0

/-- The entry of the superpage is set. -/
def linked (block : ℕ) : Memory :=
  (hole block).setEntry 8192 (vpn block 1) (leafEntry ⟨false, false, false⟩ block)

structure Surrounds (m : Memory) (block : ℕ) : Prop where
  root : ∀ i, m.entry 4096 i = if i = vpn block 2 then tableEntry 8192 else fullEntry
  table : ∀ i, i ≠ vpn block 1 → m.entry 8192 i = fullEntry

variable {m : Memory} {block addr stop v : ℕ} {permsFor : ℕ → Option MemPerms}

/-- Outside of the superpage everything is mapped already. -/
theorem Surrounds.mapAt_elsewhere (h : Surrounds m block) (hv : ¬ SameSuperpage v block) (e : ℕ) :
    Sv39.mapAt 4096 m v [2] 1 e = (.error .alreadyMapped, m) ∧
      Sv39.mapAt 4096 m v [2, 1] 0 e = (.error .alreadyMapped, m) := by
  have hfull : isValid fullEntry = true ∧ isLeaf fullEntry = true := by decide
  by_cases htop : vpn v 2 = vpn block 2
  · have hroot : m.entry 4096 (vpn v 2) = tableEntry 8192 := (h.root _).trans (if_pos htop)
    have htable : m.entry 8192 (vpn v 1) = fullEntry := h.table _ fun heq => hv ⟨htop, heq⟩
    have hpage : pageAddr (tableEntry 8192) = 8192 := pageAddr_tableEntry (by decide) (by decide)
    simp [Sv39.mapAt, walkAlloc, hroot, htable, hpage, isValid_tableEntry, isLeaf_tableEntry, hfull]
  · have hroot : m.entry 4096 (vpn v 2) = fullEntry := (h.root _).trans (if_neg htop)
    simp [Sv39.mapAt, walkAlloc, hroot, hfull]

/-- A turn of the loop outside of the superpage changes nothing. -/
theorem Surrounds.turn (permsFor : ℕ → Option MemPerms) (h : Surrounds m block)
    (hv : ¬ SameSuperpage addr block) (haddr : addr % pageSize = 0) (hlt : addr < stop)
    (hstop : stop + pageSize ≤ 2 ^ 64) (fuel : ℕ) (a : Bool) :
    ∃ b, mapLoop 64 (sv39PageTable 4096) superpageSize permsFor stop (fuel + 1) addr a m =
      mapLoop 64 (sv39PageTable 4096) superpageSize permsFor stop fuel (addr + pageSize) b m := by
  have htry : trySuperpage 64 (sv39PageTable 4096) superpageSize permsFor stop addr m =
      (false, m) := by
    have hsuper : ∀ perms, ∃ err,
        (sv39PageTable 4096).mapSuperpage m addr addr superpageSize perms = (.error err, m) := by
      intro perms
      simp only [sv39PageTable, Sv39.mapSuperpage]
      split
      · exact ⟨_, rfl⟩
      · split
        · exact ⟨_, rfl⟩
        · exact ⟨_, (h.mapAt_elsewhere hv _).1⟩
    rw [trySuperpage]
    split
    · cases uniformRegionPerms 64 addr superpageSize permsFor with
      | none => rfl
      | some perms =>
        obtain ⟨err, herr⟩ := hsuper perms
        simp only [herr]
    · rfl
  have hpage : ∀ perms, (sv39PageTable 4096).mapPage m addr addr perms =
      (.error .alreadyMapped, m) := by
    intro perms
    simp only [sv39PageTable, Sv39.mapPage, haddr]
    exact (h.mapAt_elsewhere hv _).2
  have hadd : saturatingAdd 64 addr pageSize = addr + pageSize := saturatingAdd_eq (by omega)
  rw [mapLoop, if_pos hlt, htry]
  cases permsFor addr with
  | none => exact ⟨a, by simp only [hadd]⟩
  | some perms => exact ⟨true, by simp only [hpage, hadd]⟩

end OpenIon.Platform.RiscvGeneric
