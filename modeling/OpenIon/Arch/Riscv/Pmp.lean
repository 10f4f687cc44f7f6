import OpenIon.Mm.Types
import Mathlib.Algebra.Group.Nat.Defs
import Mathlib.Data.List.Basic
import Mathlib.Logic.Function.Basic

/-! # Physical memory protection

`PmpManager` gives each region an entry of the PMP registers. The processor finds the size of a
NAPOT region by counting the ones at the end of `pmpaddr`. The registers are the ones of RV32 or
RV64, and their contents before the first call are arbitrary.
-/
namespace OpenIon.Arch.Riscv.Pmp

open OpenIon.Mm

inductive Layout where
  | rv32
  | rv64
  deriving DecidableEq

namespace Layout

def width : Layout → ℕ
  | rv32 => 32
  | rv64 => 64

def addrBits : Layout → ℕ
  | rv32 => 32
  | rv64 => 54

def cfgBytes : Layout → ℕ
  | rv32 => 4
  | rv64 => 8

/-- The `pmpcfg` register of the instruction that `write_pmp_entry` selects. -/
def cfgReg : Layout → ℕ → Option ℕ
  | _, 0 => some 0
  | rv32, 1 => some 1
  | rv64, 1 => some 2
  | rv32, 2 => some 2
  | rv32, 3 => some 3
  | _, _ => none

/-- The `pmpcfg` register that configures entry `k`. RV64 has only those with even numbers. -/
def regOf : Layout → ℕ → ℕ
  | rv32, k => k / 4
  | rv64, k => 2 * (k / 8)

end Layout

variable {l : Layout}

structure Csrs (l : Layout) where
  pmpaddr : ℕ → BitVec l.addrBits
  pmpcfg : ℕ → BitVec l.width

def pmpMaxEntries : ℕ := 16

def permsToPmpcfg (perms : MemPerms) : BitVec 8 :=
  let cfg : BitVec 8 := 0b11 <<< 3
  let cfg := if perms.read then cfg ||| 1 <<< 0 else cfg
  let cfg := if perms.write then cfg ||| 1 <<< 1 else cfg
  if perms.execute then cfg ||| 1 <<< 2 else cfg

def napotEncode (base size : BitVec l.width) : Except MmError (BitVec l.width) :=
  if size.toNat < 16 ∨ ¬size.toNat.isPowerOfTwo then .error .invalidRegion
  else if base % size ≠ 0 then .error .invalidAlignment
  else .ok ((base >>> 2) ||| ((size >>> 3) - 1))

def withByte {w : ℕ} (current : BitVec w) (cfgByte : ℕ) (cfg : BitVec 8) : BitVec w :=
  let mask := BitVec.ofNat w 0xFF <<< (cfgByte * 8)
  (current &&& ~~~mask) ||| (cfg.setWidth w <<< (cfgByte * 8))

def writePmpEntry (idx : ℕ) (addrVal : BitVec l.width) (cfg : BitVec 8) (csrs : Csrs l) : Csrs l :=
  let csrs :=
    if idx < 16 then
      { csrs with pmpaddr := Function.update csrs.pmpaddr idx (addrVal.setWidth l.addrBits) }
    else csrs
  let cfgCsr := idx / l.cfgBytes
  let cfgByte := idx % l.cfgBytes
  match l.cfgReg cfgCsr with
  | none => csrs
  | some reg =>
    { csrs with
      pmpcfg := Function.update csrs.pmpcfg reg (withByte (csrs.pmpcfg reg) cfgByte cfg) }

/-- The manager and the registers it writes. -/
structure PmpManager (l : Layout) where
  count : ℕ
  csrs : Csrs l

def PmpManager.new (csrs : Csrs l) : PmpManager l := ⟨0, csrs⟩

def PmpManager.addRegion (base size : BitVec l.width) (perms : MemPerms) (pmp : PmpManager l) :
    Except MmError Unit × PmpManager l :=
  if pmp.count ≥ pmpMaxEntries then (.error .outOfMemory, pmp)
  else
    match napotEncode base size with
    | .error e => (.error e, pmp)
    | .ok addrVal =>
      let cfg := permsToPmpcfg perms
      (.ok (), ⟨pmp.count + 1, writePmpEntry pmp.count addrVal cfg pmp.csrs⟩)

/-! ## What the processor reads -/

structure Region where
  base : ℕ
  size : ℕ
  perms : MemPerms
  deriving DecidableEq

/-- The number of ones at the end of a number, of `bits` bits at most. -/
def trailingOnes : ℕ → ℕ → ℕ
  | 0, _ => 0
  | bits + 1, n => if n % 2 = 1 then trailingOnes bits (n / 2) + 1 else 0

def Csrs.cfg (csrs : Csrs l) (k : ℕ) : BitVec 8 :=
  (csrs.pmpcfg (l.regOf k)).extractLsb' (k % l.cfgBytes * 8) 8

/-- Entry `k` as a NAPOT region. An entry that may be written and not read is reserved. -/
def Csrs.decode (csrs : Csrs l) (k : ℕ) : Option Region :=
  let cfg := csrs.cfg k
  let perms : MemPerms := ⟨cfg.getLsbD 0, cfg.getLsbD 1, cfg.getLsbD 2⟩
  if cfg.extractLsb' 3 2 = 0b11 ∧ (perms.write = true → perms.read = true) then
    let addr := (csrs.pmpaddr k).toNat
    let ones := trailingOnes l.addrBits addr
    some ⟨addr / 2 ^ (ones + 1) * 2 ^ (ones + 3), 2 ^ (ones + 3), perms⟩
  else none

/-! ## The table of regions -/

/-- A call of `add_region`, with a region that the registers can describe. -/
structure Call (l : Layout) where
  base : BitVec l.width
  size : BitVec l.width
  perms : MemPerms
  below : base.toNat + size.toNat ≤ 2 ^ (l.addrBits + 2)
  readable : perms.write = true → perms.read = true

namespace Call

def region (call : Call l) : Region := ⟨call.base.toNat, call.size.toNat, call.perms⟩

def Fits (call : Call l) : Prop :=
  call.size.toNat.isPowerOfTwo ∧ 16 ≤ call.size.toNat ∧ call.size.toNat ∣ call.base.toNat

instance decidableFits (call : Call l) : Decidable call.Fits :=
  inferInstanceAs (Decidable (_ ∧ _ ∧ _))

end Call

/-- A table of 16 regions takes every region that fits until it is full. -/
def accept (regions : List Region) (call : Call l) : List Region :=
  if call.Fits ∧ regions.length < 16 then regions ++ [call.region] else regions

def perform (pmp : PmpManager l) (call : Call l) : PmpManager l :=
  (pmp.addRegion call.base call.size call.perms).2

/-- The entries in use decode to the regions of the table. -/
structure Describes (pmp : PmpManager l) (regions : List Region) : Prop where
  count : pmp.count = regions.length
  decode : ∀ (k : ℕ) (region : Region), regions[k]? = some region →
    pmp.csrs.decode k = some region
  full : regions.length ≤ 16

/-! ## One entry -/

variable {call : Call l} {pmp : PmpManager l} {csrs : Csrs l}

theorem testBit_byteMask (b : ℕ) : (0xFF : ℕ).testBit b = decide (b < 8) :=
  Nat.testBit_two_pow_sub_one 8 b

theorem getLsbD_withByte {w : ℕ} (current : BitVec w) (cfg : BitVec 8) (i b : ℕ) (hb : b < w) :
    (withByte current i cfg).getLsbD b =
      if i * 8 ≤ b ∧ b < i * 8 + 8 then cfg.getLsbD (b - i * 8) else current.getLsbD b := by
  simp only [withByte, BitVec.getLsbD_or, BitVec.getLsbD_and, BitVec.getLsbD_not,
    BitVec.getLsbD_shiftLeft, BitVec.getLsbD_ofNat, BitVec.getLsbD_setWidth, testBit_byteMask]
  obtain hlow | hlow := Nat.lt_or_ge b (i * 8)
  · rw [if_neg (by omega)]
    simp [hb, hlow]
  · have hsub : b - i * 8 < w := by omega
    by_cases hbyte : b - i * 8 < 8
    · rw [if_pos (by omega)]
      simp [hb, hsub, hbyte, Nat.not_lt.mpr hlow]
    · rw [if_neg (by omega)]
      simp [hb, hsub, hbyte, BitVec.getLsbD_of_ge cfg _ (Nat.not_lt.mp hbyte)]

theorem extractLsb_withByte {w : ℕ} (current : BitVec w) (cfg : BitVec 8) {i j : ℕ}
    (hj : j * 8 + 8 ≤ w) :
    (withByte current i cfg).extractLsb' (j * 8) 8 =
      if j = i then cfg else current.extractLsb' (j * 8) 8 := by
  apply BitVec.eq_of_getLsbD_eq
  intro b hb
  rw [BitVec.getLsbD_extractLsb', getLsbD_withByte _ _ _ _ (by omega)]
  by_cases hji : j = i
  · subst hji
    rw [if_pos (by omega), if_pos rfl, Nat.add_sub_cancel_left]
    simp [hb]
  · rw [if_neg (by omega), if_neg hji, BitVec.getLsbD_extractLsb']

theorem trailingOnes_eq (bits t q : ℕ) (h : t ≤ bits) :
    trailingOnes bits (2 ^ (t + 1) * q + (2 ^ t - 1)) = t := by
  induction t generalizing bits with
  | zero =>
    cases bits with
    | zero => rfl
    | succ bits => simp [trailingOnes]
  | succ t ih =>
    obtain ⟨bits, rfl⟩ : ∃ b, bits = b + 1 := ⟨bits - 1, by omega⟩
    have hpos := Nat.two_pow_pos t
    have hodd : 2 ^ (t + 1 + 1) * q + (2 ^ (t + 1) - 1) =
        2 * (2 ^ (t + 1) * q + (2 ^ t - 1)) + 1 := by
      rw [Nat.pow_succ 2 (t + 1), Nat.mul_comm (2 ^ (t + 1)) 2, Nat.mul_assoc]
      omega
    rw [hodd, trailingOnes, if_pos (by omega), show
      (2 * (2 ^ (t + 1) * q + (2 ^ t - 1)) + 1) / 2 = 2 ^ (t + 1) * q + (2 ^ t - 1) by omega,
      ih bits (by omega)]

/-- The register that is written is the one of the entry. -/
theorem cfgReg_eq (l : Layout) {idx : ℕ} (h : idx < 16) :
    l.cfgReg (idx / l.cfgBytes) = some (l.regOf idx) := by
  cases l with
  | rv32 => decide +revert
  | rv64 => decide +revert

theorem cfgBytes_fit (l : Layout) (k : ℕ) : k % l.cfgBytes * 8 + 8 ≤ l.width := by
  cases l with
  | rv32 => change k % 4 * 8 + 8 ≤ 32; omega
  | rv64 => change k % 8 * 8 + 8 ≤ 64; omega

theorem entry_ext (l : Layout) {k idx : ℕ} (hreg : l.regOf k = l.regOf idx)
    (hbyte : k % l.cfgBytes = idx % l.cfgBytes) : k = idx := by
  cases l with
  | rv32 =>
    change k / 4 = idx / 4 at hreg
    change k % 4 = idx % 4 at hbyte
    omega
  | rv64 =>
    change 2 * (k / 8) = 2 * (idx / 8) at hreg
    change k % 8 = idx % 8 at hbyte
    omega

/-- Writing an entry changes that entry only. -/
theorem pmpaddr_writePmpEntry {idx : ℕ} (hidx : idx < 16) (addrVal : BitVec l.width)
    (cfg : BitVec 8) (k : ℕ) :
    (writePmpEntry idx addrVal cfg csrs).pmpaddr k =
      if k = idx then addrVal.setWidth l.addrBits else csrs.pmpaddr k := by
  simp only [writePmpEntry, cfgReg_eq l hidx, if_pos hidx, Function.update_apply]

theorem cfg_writePmpEntry {idx : ℕ} (hidx : idx < 16) (addrVal : BitVec l.width)
    (cfg : BitVec 8) (k : ℕ) :
    (writePmpEntry idx addrVal cfg csrs).cfg k = if k = idx then cfg else csrs.cfg k := by
  simp only [Csrs.cfg, writePmpEntry, cfgReg_eq l hidx, if_pos hidx, Function.update_apply]
  by_cases hreg : l.regOf k = l.regOf idx
  · rw [if_pos hreg, extractLsb_withByte _ _ (cfgBytes_fit l k), hreg]
    by_cases hk : k = idx
    · rw [if_pos hk, if_pos (by rw [hk])]
    · rw [if_neg hk, if_neg fun hbyte => hk (entry_ext l hreg hbyte)]
  · rw [if_neg hreg, if_neg fun hk => hreg (by rw [hk])]

theorem decode_writePmpEntry_of_ne {idx k : ℕ} (hidx : idx < 16) (addrVal : BitVec l.width)
    (cfg : BitVec 8) (hk : k ≠ idx) :
    (writePmpEntry idx addrVal cfg csrs).decode k = csrs.decode k := by
  simp only [Csrs.decode, pmpaddr_writePmpEntry hidx, cfg_writePmpEntry hidx, if_neg hk]

/-! ## One call -/

theorem umod_eq_zero_iff {w : ℕ} (x y : BitVec w) : x % y = 0 ↔ y.toNat ∣ x.toNat := by
  rw [← BitVec.toNat_inj, BitVec.toNat_umod, Nat.dvd_iff_mod_eq_zero]
  simp

theorem napotEncode_eq_ok_iff {addrVal : BitVec l.width} :
    napotEncode call.base call.size = .ok addrVal ↔
      call.Fits ∧ addrVal = (call.base >>> 2) ||| ((call.size >>> 3) - 1) := by
  rw [napotEncode, Call.Fits, ← umod_eq_zero_iff]
  split_ifs with hsize halign
  · refine ⟨fun h => (by cases h), fun h => ?_⟩
    rcases hsize with hsmall | hpow
    · exact absurd h.1.2.1 (Nat.not_le.mpr hsmall)
    · exact absurd h.1.1 hpow
  · exact ⟨fun h => (by cases h), fun h => absurd h.1.2.2 halign⟩
  · rw [not_or, not_not, Nat.not_lt] at hsize
    rw [not_not] at halign
    refine ⟨fun h => ⟨⟨hsize.2, hsize.1, halign⟩, ?_⟩, fun h => ?_⟩
    · cases h
      rfl
    · rw [h.2]

/-- The encoded address: the base without its last bits, then a zero and ones. -/
theorem toNat_encoded {t q : ℕ} (hsize : call.size.toNat = 2 ^ (t + 3))
    (hbase : call.base.toNat = 2 ^ (t + 3) * q) :
    ((call.base >>> 2) ||| ((call.size >>> 3) - 1)).toNat = 2 ^ (t + 1) * q + (2 ^ t - 1) := by
  have hbase' : (call.base >>> 2).toNat = 2 ^ (t + 1) * q := by
    rw [BitVec.toNat_ushiftRight, hbase, Nat.shiftRight_eq_div_pow, Nat.pow_add 2 (t + 1) 2,
      Nat.mul_right_comm, Nat.mul_div_cancel _ (by decide)]
  have hsize' : (call.size >>> 3).toNat = 2 ^ t := by
    rw [BitVec.toNat_ushiftRight, hsize, Nat.shiftRight_eq_div_pow, Nat.pow_add,
      Nat.mul_div_cancel _ (by decide)]
  have hone : (1 : BitVec l.width).toNat = 1 := by cases l <;> rfl
  have hpos := Nat.two_pow_pos t
  have hle : (1 : BitVec l.width) ≤ call.size >>> 3 := by
    rw [BitVec.le_def, hone, hsize']
    exact hpos
  have hlt : 2 ^ t - 1 < 2 ^ (t + 1) := by
    rw [Nat.pow_succ]
    omega
  rw [BitVec.toNat_or, BitVec.toNat_sub_of_le hle, hone, hbase', hsize',
    Nat.two_pow_add_eq_or_of_lt hlt]

theorem Call.Fits.shape (h : call.Fits) : ∃ t q,
    call.size.toNat = 2 ^ (t + 3) ∧ call.base.toNat = 2 ^ (t + 3) * q := by
  obtain ⟨⟨s, hs⟩, h16, q, hq⟩ := h
  have h3 : 3 ≤ s := by
    by_contra hlt
    have : 2 ^ s ≤ 2 ^ 3 := Nat.pow_le_pow_right (by decide) (by omega)
    omega
  obtain ⟨t, rfl⟩ := Nat.exists_eq_add_of_le' h3
  exact ⟨t, q, hs, by rw [hq, hs]⟩

theorem permsToPmpcfg_bits (perms : MemPerms) :
    (permsToPmpcfg perms).extractLsb' 3 2 = 0b11 ∧
      (permsToPmpcfg perms).getLsbD 0 = perms.read ∧
      (permsToPmpcfg perms).getLsbD 1 = perms.write ∧
      (permsToPmpcfg perms).getLsbD 2 = perms.execute := by
  obtain ⟨read, write, execute⟩ := perms
  decide +revert

/-- The processor decodes what `add_region` writes to the region of the call. -/
theorem decode_written {idx : ℕ} (hidx : idx < 16) (h : call.Fits) :
    (writePmpEntry idx ((call.base >>> 2) ||| ((call.size >>> 3) - 1))
      (permsToPmpcfg call.perms) csrs).decode idx = some call.region := by
  obtain ⟨t, q, hsize, hbase⟩ := h.shape
  have hbelow := call.below
  rw [hsize, hbase, ← Nat.mul_succ] at hbelow
  have hfit : 2 ^ (t + 1) * (q + 1) ≤ 2 ^ l.addrBits := by
    rw [Nat.pow_add 2 (t + 1) 2, Nat.mul_right_comm, Nat.pow_add 2 l.addrBits 2] at hbelow
    exact Nat.le_of_mul_le_mul_right hbelow (Nat.two_pow_pos 2)
  have haddr : (((call.base >>> 2) ||| ((call.size >>> 3) - 1)).setWidth l.addrBits).toNat =
      2 ^ (t + 1) * q + (2 ^ t - 1) := by
    rw [BitVec.toNat_setWidth, toNat_encoded hsize hbase]
    apply Nat.mod_eq_of_lt
    have hpos := Nat.two_pow_pos t
    rw [Nat.mul_succ, Nat.pow_succ] at hfit
    rw [Nat.pow_succ]
    omega
  have ht : t ≤ l.addrBits := by
    have hle : 2 ^ t ≤ 2 ^ l.addrBits := by
      refine Nat.le_trans ?_ hfit
      rw [Nat.pow_succ, Nat.mul_assoc]
      exact Nat.le_mul_of_pos_right _ (by omega)
    exact (Nat.pow_le_pow_iff_right (by decide)).mp hle
  have hdiv : (2 ^ (t + 1) * q + (2 ^ t - 1)) / 2 ^ (t + 1) = q := by
    have hpos := Nat.two_pow_pos t
    rw [Nat.mul_add_div (Nat.two_pow_pos _), Nat.div_eq_of_lt, Nat.add_zero]
    rw [Nat.pow_succ]
    omega
  obtain ⟨hnapot, hread, hwrite, hexecute⟩ := permsToPmpcfg_bits call.perms
  simp only [Csrs.decode, pmpaddr_writePmpEntry hidx, cfg_writePmpEntry hidx, if_true, hread,
    hwrite, hexecute]
  rw [haddr, trailingOnes_eq _ _ _ ht, hdiv, if_pos ⟨hnapot, call.readable⟩, Call.region,
    hsize, hbase, Nat.mul_comm q]

theorem addRegion_of_fits (h : call.Fits) (hroom : pmp.count < 16) :
    pmp.addRegion call.base call.size call.perms =
      (.ok (), ⟨pmp.count + 1, writePmpEntry pmp.count
        ((call.base >>> 2) ||| ((call.size >>> 3) - 1)) (permsToPmpcfg call.perms) pmp.csrs⟩) := by
  have hfull : ¬pmp.count ≥ pmpMaxEntries := Nat.not_le.mpr hroom
  rw [PmpManager.addRegion, if_neg hfull, napotEncode_eq_ok_iff.mpr ⟨h, rfl⟩]

theorem addRegion_of_not (pmp : PmpManager l) (call : Call l)
    (h : ¬(call.Fits ∧ pmp.count < 16)) :
    ∃ e, pmp.addRegion call.base call.size call.perms = (.error e, pmp) := by
  rw [PmpManager.addRegion]
  split_ifs with hfull
  · exact ⟨_, rfl⟩
  · cases hencode : napotEncode call.base call.size with
    | error e => exact ⟨e, rfl⟩
    | ok addrVal => exact absurd ⟨(napotEncode_eq_ok_iff.mp hencode).1, Nat.not_le.mp hfull⟩ h

/-! ## Sequences of calls -/

variable {regions : List Region}

theorem Describes.perform (h : Describes pmp regions) (call : Call l) :
    Describes (perform pmp call) (accept regions call) := by
  have hcount := h.count
  by_cases hok : call.Fits ∧ regions.length < 16
  · have hroom : pmp.count < 16 := hcount ▸ hok.2
    rw [Pmp.perform, addRegion_of_fits hok.1 hroom, accept, if_pos hok]
    refine ⟨?_, ?_, ?_⟩
    · simp [hcount]
    · intro k region hk
      obtain hlt | hge := Nat.lt_or_ge k regions.length
      · rw [List.getElem?_append_left hlt] at hk
        rw [← h.decode k region hk]
        exact decode_writePmpEntry_of_ne hroom _ _ (by omega)
      · have hlast : k = regions.length := by
          have := (List.getElem?_eq_some_iff.mp hk).1
          simp at this
          omega
        subst hlast
        rw [List.getElem?_concat_length] at hk
        cases hk
        rw [← hcount]
        exact decode_written hroom hok.1
    · simpa using Nat.succ_le_of_lt hok.2
  · obtain ⟨e, he⟩ := addRegion_of_not pmp call (hcount ▸ hok)
    rw [Pmp.perform, he, accept, if_neg hok]
    exact h

/-- After any calls the entries describe the regions that were accepted. -/
theorem describes_foldl (csrs : Csrs l) (calls : List (Call l)) :
    Describes (calls.foldl perform (.new csrs)) (calls.foldl accept []) := by
  suffices ∀ (pmp : PmpManager l) (regions : List Region), Describes pmp regions →
      Describes (calls.foldl perform pmp) (calls.foldl accept regions) from
    this _ _ ⟨rfl, fun k region h => (by simp at h), Nat.zero_le 16⟩
  induction calls with
  | nil => exact fun _ _ h => h
  | cons call calls ih => exact fun _ _ h => ih _ _ (h.perform call)

/-- The registers describe the accepted regions; the next call succeeds exactly when its region is
accepted, and changes nothing when it fails. -/
theorem add_region_programs (csrs : Csrs l) (calls : List (Call l)) (call : Call l) :
    let pmp := calls.foldl perform (.new csrs)
    let regions := calls.foldl accept []
    Describes pmp regions ∧
      ((pmp.addRegion call.base call.size call.perms).1 = .ok () ↔
        call.Fits ∧ regions.length < 16) ∧
      ((pmp.addRegion call.base call.size call.perms).1 ≠ .ok () →
        perform pmp call = pmp) := by
  intro pmp regions
  have h : Describes pmp regions := describes_foldl csrs calls
  refine ⟨h, ?_⟩
  by_cases hok : call.Fits ∧ regions.length < 16
  · have hadd := addRegion_of_fits hok.1 (h.count ▸ hok.2)
    rw [hadd]
    exact ⟨⟨fun _ => hok, fun _ => rfl⟩, fun hne => absurd rfl hne⟩
  · obtain ⟨e, he⟩ := addRegion_of_not pmp call (h.count ▸ hok)
    rw [Pmp.perform, he]
    exact ⟨⟨fun h' => (by cases h'), fun h' => absurd h' hok⟩, fun _ => rfl⟩

end OpenIon.Arch.Riscv.Pmp
