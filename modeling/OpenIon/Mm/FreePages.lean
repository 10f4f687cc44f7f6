import OpenIon.Lib.Run
import OpenIon.Mm.Frame
import Mathlib.Data.Finset.Card
import Mathlib.Data.Finset.Max
import Mathlib.Data.Nat.ModEq
import Mathlib.Order.Interval.Finset.Nat

/-! # The free pages of a frame allocator

A frame allocator stands for the finite set of its free pages. `alloc` removes the
lowest one: its scan visits every word only once and skips the bits below the hint
in the first, but no page below the hint is ever free.
-/
namespace OpenIon.Mm
open Lib

namespace FrameAllocator

/-- The bitmap is the set `F` of pages, and the hint is not above any of them. -/
structure Represents (a : FrameAllocator) (F : Finset ℕ) : Prop where
  bits : ∀ i, a.isFree i = true ↔ i ∈ F
  lt : ∀ i ∈ F, i < a.totalPages
  total : a.totalPages ≤ maxPages
  count : a.freePages = F.card
  aligned : a.baseAddr % pageSize = 0
  word : a.nextWord < bitmapWords
  bit : a.nextBit < wordBits
  hint : ∀ i ∈ F, a.nextWord * wordBits + a.nextBit ≤ i

variable {w : ℕ} {a : FrameAllocator} {F : Finset ℕ}

theorem wordBits_eq : wordBits = 32 := by decide

theorem bitmapWords_eq : bitmapWords = 1024 := by decide

theorem pageAlign_eq (hw : 12 ≤ w) (addr : ℕ) :
    pageAlign w addr = addr % 2 ^ w / pageSize * pageSize := by
  rw [pageAlign, show pageSize = 2 ^ 12 from rfl, and_highMask hw]

/-- `init` frees the pages of the region. -/
theorem init_represents (hw : 12 ≤ w) (base size : ℕ) :
    (init w base size).Represents (Finset.range (init w base size).totalPages) := by
  have htotal : (init w base size).totalPages ≤ maxPages := Nat.min_le_right _ _
  have hbits := forRange_induction (n := (init w base size).totalPages) (f := initPage)
    (a := fun _ => 0) (fun n bitmap => ∀ i, Lib.bit bitmap i = true ↔ i < n) ?_ ?_
  · refine ⟨?_, ?_, htotal, ?_, ?_, show 0 < bitmapWords by decide, show 0 < wordBits by decide, ?_⟩
    · intro i
      rw [Finset.mem_range]
      exact hbits i
    · intro i hi
      exact Finset.mem_range.mp hi
    · rw [Finset.card_range]
      rfl
    · change pageAlign w base % pageSize = 0
      rw [pageAlign_eq hw, Nat.mul_mod_left]
    · intro i _
      exact Nat.zero_le i
  · intro i
    simp [Lib.bit]
  · intro n hn bitmap hbitmap i
    have hword : n / wordBits < bitmapWords := by
      rw [maxPages] at htotal
      rw [wordBits_eq, bitmapWords_eq]
      omega
    rw [initPage, if_pos hword, bit_set (by decide), hbitmap]
    omega

theorem Represents.word_bit (h : a.Represents F) {n i : ℕ} (hi : i < wordBits) :
    (a.bitmap n).getLsbD i = true ↔ n * wordBits + i ∈ F := by
  rw [← h.bits, isFree, bit_mul_add hi]

theorem Represents.mask_eq_zero (h : a.Represents F) {n : ℕ} :
    a.bitmap (n / wordBits) &&& (oneU32 <<< (n % wordBits)) = 0 ↔ n ∉ F := by
  rw [and_bitMask_eq_zero (by decide)]
  exact not_congr (h.bits n)

theorem Represents.scanWord_none (h : a.Represents F) {n s scan : ℕ}
    (hempty : ∀ i < wordBits, (n + scan) % bitmapWords * wordBits + i ∉ F) :
    a.scanWord n s scan = none := by
  have hzero : a.bitmap ((n + scan) % bitmapWords) = 0 := by
    apply BitVec.eq_of_getLsbD_eq
    intro i hi
    change _ = (BitVec.ofNat wordBits 0).getLsbD i
    rw [BitVec.getLsbD_zero, Bool.eq_false_iff, ne_eq, h.word_bit hi]
    exact hempty i hi
  rw [scanWord, if_pos hzero]

theorem Represents.scanWord_lowest (h : a.Represents F) {m scan : ℕ} (hm : m ∈ F)
    (hlow : ∀ i ∈ F, m ≤ i) (hscan : (a.nextWord + scan) % bitmapWords = m / wordBits)
    (hfirst : scan = 0 → a.nextBit ≤ m % wordBits) :
    a.scanWord a.nextWord a.nextBit scan = some m := by
  have hdiv : m / wordBits * wordBits + m % wordBits = m := Nat.div_add_mod' m wordBits
  have hbit : m % wordBits < wordBits := Nat.mod_lt m (by decide)
  have hset : (a.bitmap (m / wordBits)).getLsbD (m % wordBits) = true := by
    rw [h.word_bit hbit, hdiv]
    exact hm
  have hbelow : ∀ j < m % wordBits, (a.bitmap (m / wordBits)).getLsbD j = false := by
    intro j hj
    rw [Bool.eq_false_iff, ne_eq, h.word_bit (hj.trans hbit)]
    intro hmem
    have hle := hlow _ hmem
    omega
  have hne : ∀ word : BitVec wordBits, word.getLsbD (m % wordBits) = true → word ≠ 0 := by
    rintro word hword rfl
    simp at hword
  -- the masked word has the same lowest bit, because that bit is not below the hint
  have hmasked : ∀ word : BitVec wordBits, (word = a.bitmap (m / wordBits) ∨
      word = a.bitmap (m / wordBits) &&& ~~~((oneU32 <<< a.nextBit) - oneU32) ∧ scan = 0) →
      word ≠ 0 ∧ word.ctz.toNat = m % wordBits := by
    rintro word (rfl | ⟨rfl, hzero⟩)
    · exact ⟨hne _ hset, ctz_eq_of_lowest hset hbelow⟩
    · have hkept := (getLsbD_clearBelow (a.bitmap (m / wordBits)) a.nextBit (m % wordBits) h.bit
        hbit).mpr ⟨hset, hfirst hzero⟩
      refine ⟨hne _ hkept, ctz_eq_of_lowest hkept ?_⟩
      intro j hj
      rw [Bool.eq_false_iff, ne_eq, getLsbD_clearBelow _ _ _ h.bit (hj.trans hbit), hbelow j hj]
      simp
  have hmask : ¬ a.bitmap (m / wordBits) &&& (oneU32 <<< (m % wordBits)) = 0 := by
    rw [h.mask_eq_zero]
    exact not_not_intro hm
  rcases hmasked (if scan = 0 ∧ 0 < a.nextBit then
    a.bitmap (m / wordBits) &&& ~~~((oneU32 <<< a.nextBit) - oneU32)
    else a.bitmap (m / wordBits)) (by split_ifs with hzero <;> simp [hzero]) with ⟨hword, hctz⟩
  rw [scanWord, hscan, if_neg (hne _ hset)]
  simp only [if_neg hword, hctz, hdiv]
  rw [if_neg (by omega), if_neg (Nat.not_le.mpr (h.lt m hm)), if_neg hmask]

theorem Represents.take (h : a.Represents F) {m : ℕ} (hm : m ∈ F) (hlow : ∀ i ∈ F, m ≤ i) :
    (a.take m).Represents (F.erase m) := by
  have hlt := (h.lt m hm).trans_le h.total
  rw [maxPages] at hlt
  have hhint : ∀ i ∈ F.erase m, m + 1 ≤ i := by
    intro i hi
    have hle := hlow i (Finset.mem_of_mem_erase hi)
    have hne := Finset.ne_of_mem_erase hi
    omega
  refine ⟨?_, ?_, h.total, ?_, h.aligned, ?_, ?_, ?_⟩
  · intro i
    rw [isFree, FrameAllocator.take, bit_clear (by decide), Finset.mem_erase, and_comm]
    exact and_congr Iff.rfl (h.bits i)
  · intro i hi
    exact h.lt i (Finset.mem_of_mem_erase hi)
  · rw [Finset.card_erase_of_mem hm, ← h.count]
    rfl
  · simp only [FrameAllocator.take, wordBits_eq, bitmapWords_eq]
    split_ifs <;> omega
  · simp only [FrameAllocator.take, wordBits_eq]
    split_ifs <;> omega
  · intro i hi
    have hle := hhint i hi
    simp only [FrameAllocator.take, wordBits_eq, bitmapWords_eq]
    split_ifs <;> omega

/-- `alloc` takes the lowest free page, if there is one. -/
theorem Represents.alloc (h : a.Represents F) :
    (F = ∅ ∧ a.alloc w = (none, a)) ∨
      ∃ m ∈ F, (∀ i ∈ F, m ≤ i) ∧ a.alloc w = (some (a.pageAddr w m), a.take m) := by
  have hstart : min a.nextWord (bitmapWords - 1) = a.nextWord := by
    have hword := h.word
    omega
  have hbit : min a.nextBit (wordBits - 1) = a.nextBit := by
    have hbit := h.bit
    omega
  simp only [FrameAllocator.alloc, hstart, hbit]
  rcases F.eq_empty_or_nonempty with rfl | hne
  · refine .inl ⟨rfl, ?_⟩
    have hnone : (List.range bitmapWords).findSome? (a.scanWord a.nextWord a.nextBit) = none := by
      rw [List.findSome?_eq_none_iff]
      intro scan _
      exact h.scanWord_none fun i _ => Finset.notMem_empty _
    rw [hnone]
    split <;> rfl
  · rcases F.exists_minimal hne with ⟨m, hm, hmin⟩
    have hlow : ∀ i ∈ F, m ≤ i := by
      intro i hi
      rcases Nat.le_total m i with hle | hle
      · exact hle
      · exact hmin hi hle
    refine .inr ⟨m, hm, hlow, ?_⟩
    have hlt := (h.lt m hm).trans_le h.total
    have hhint := h.hint m hm
    have hword := h.word
    have hnext := h.bit
    have htotal : a.totalPages ≠ 0 := by
      have hpage := h.lt m hm
      omega
    have hfound : (List.range bitmapWords).findSome? (a.scanWord a.nextWord a.nextBit) =
        some m := by
      rw [bitmapWords_eq] at hword
      rw [wordBits_eq] at hhint hnext
      rw [maxPages] at hlt
      -- the words between the hint and the page hold no free page
      apply findSome?_range_eq_some (i := m / 32 - a.nextWord)
      · rw [bitmapWords_eq]
        omega
      · apply h.scanWord_lowest hm hlow
        · rw [bitmapWords_eq, wordBits_eq]
          omega
        · intro hzero
          rw [wordBits_eq]
          omega
      · intro scan hscan
        apply h.scanWord_none
        intro i hi hmem
        have hle := hlow _ hmem
        rw [wordBits_eq] at hi hle
        rw [bitmapWords_eq] at hle
        omega
    rw [if_neg htotal, hfound]

theorem Represents.give (h : a.Represents F) {n : ℕ} (hn : n < a.totalPages) (hnew : n ∉ F) :
    (a.give n).Represents (insert n F) := by
  have hlt := hn.trans_le h.total
  have hword := h.word
  have hbit := h.bit
  rw [maxPages] at hlt
  rw [bitmapWords_eq] at hword
  rw [wordBits_eq] at hbit
  refine ⟨?_, ?_, h.total, ?_, h.aligned, ?_, ?_, ?_⟩
  · intro i
    rw [isFree, FrameAllocator.give, bit_set (by decide), Finset.mem_insert, or_comm]
    exact or_congr Iff.rfl (h.bits i)
  · intro i hi
    rcases Finset.mem_insert.mp hi with rfl | hi
    · exact hn
    · exact h.lt i hi
  · rw [Finset.card_insert_of_notMem hnew, ← h.count]
    rfl
  · simp only [FrameAllocator.give, wordBits_eq, bitmapWords_eq]
    split_ifs <;> omega
  · simp only [FrameAllocator.give, wordBits_eq]
    split_ifs <;> omega
  · intro i hi
    simp only [FrameAllocator.give, wordBits_eq, bitmapWords_eq]
    rcases Finset.mem_insert.mp hi with rfl | hi
    · split_ifs <;> omega
    · have hle := h.hint i hi
      rw [wordBits_eq] at hle
      split_ifs <;> omega

inductive FrameOp where
  | alloc
  | free (addr : ℕ)

def exec (w : ℕ) (a : FrameAllocator) : FrameOp → FrameAllocator
  | .alloc => (a.alloc w).2
  | .free addr => a.free w addr

/-- The free pages after an operation, by what was asked for: all but the lowest one after
`alloc`, and those before with the page of the address after `free`. -/
def freeAfter (w base total : ℕ) (F : Finset ℕ) : FrameOp → Finset ℕ
  | .alloc => F.filter fun i => ∃ j ∈ F, j < i
  | .free addr => F ∪ (Finset.range total).filter fun i => base + i * pageSize = pageAlign w addr

theorem Represents.free (h : a.Represents F) (hw : 12 ≤ w) (addr : ℕ) :
    (a.free w addr).Represents (freeAfter w a.baseAddr a.totalPages F (.free addr)) := by
  have haligned := h.aligned
  have hraw : pageAlign w addr % pageSize = 0 := by rw [pageAlign_eq hw, Nat.mul_mod_left]
  simp only [FrameAllocator.free, freeAfter]
  generalize pageAlign w addr = raw at hraw
  have hnone : (∀ i < a.totalPages, a.baseAddr + i * pageSize ≠ raw) →
      F ∪ (Finset.range a.totalPages).filter (fun i => a.baseAddr + i * pageSize = raw) = F := by
    intro hother
    apply Finset.union_eq_left.mpr
    intro i hi
    rw [Finset.mem_filter, Finset.mem_range] at hi
    exact absurd hi.2 (hother i hi.1)
  rw [pageSize] at *
  split_ifs with hbelow habove hclear
  · rw [hnone fun i _ => by omega]
    exact h
  · rw [hnone fun i hi => by omega]
    exact h
  · have hpage : (Finset.range a.totalPages).filter (fun i => a.baseAddr + i * 4096 = raw) =
        {(raw - a.baseAddr) / 4096} := by
      ext i
      rw [Finset.mem_filter, Finset.mem_range, Finset.mem_singleton]
      omega
    rw [hpage, Finset.union_comm, ← Finset.insert_eq]
    exact h.give (by omega) (h.mask_eq_zero.mp hclear)
  · have hold : (raw - a.baseAddr) / 4096 ∈ F := by
      by_contra hnew
      exact hclear (h.mask_eq_zero.mpr hnew)
    rw [Finset.union_eq_left.mpr]
    · exact h
    · intro i hi
      rw [Finset.mem_filter] at hi
      rw [← hi.2] at hold
      simpa using hold

theorem erase_lowest {m : ℕ} (hm : m ∈ F) (hlow : ∀ i ∈ F, m ≤ i) :
    F.erase m = F.filter fun i => ∃ j ∈ F, j < i := by
  ext i
  rw [Finset.mem_erase, Finset.mem_filter, and_comm]
  apply and_congr_right
  intro hi
  refine ⟨fun hne => ⟨m, hm, lt_of_le_of_ne (hlow i hi) (Ne.symm hne)⟩, ?_⟩
  rintro ⟨j, hj, hlt⟩ rfl
  exact absurd (hlow j hj) (Nat.not_le.mpr hlt)

/-- An operation keeps the region and does to the free pages what was asked for. -/
theorem Represents.exec (h : a.Represents F) (hw : 12 ≤ w) (op : FrameOp) :
    (a.exec w op).Represents (freeAfter w a.baseAddr a.totalPages F op) ∧
      (a.exec w op).baseAddr = a.baseAddr ∧ (a.exec w op).totalPages = a.totalPages := by
  cases op with
  | alloc =>
    rw [FrameAllocator.exec, freeAfter]
    rcases h.alloc (w := w) with ⟨rfl, halloc⟩ | ⟨m, hm, hlow, halloc⟩
    · rw [halloc, Finset.filter_empty]
      exact ⟨h, rfl, rfl⟩
    · rw [halloc, ← erase_lowest hm hlow]
      exact ⟨h.take hm hlow, rfl, rfl⟩
  | free addr =>
    refine ⟨h.free hw addr, ?_⟩
    simp only [FrameAllocator.exec, FrameAllocator.free]
    split_ifs <;> exact ⟨rfl, rfl⟩

theorem Represents.execs (h : a.Represents F) (hw : 12 ≤ w) (ops : List FrameOp) :
    (ops.foldl (FrameAllocator.exec w) a).Represents
        (ops.foldl (freeAfter w a.baseAddr a.totalPages) F) ∧
      (ops.foldl (FrameAllocator.exec w) a).baseAddr = a.baseAddr ∧
      (ops.foldl (FrameAllocator.exec w) a).totalPages = a.totalPages := by
  induction ops generalizing a F with
  | nil => exact ⟨h, rfl, rfl⟩
  | cons op ops ih =>
    rcases h.exec hw op with ⟨hrep, hbase, htotal⟩
    have hrest := ih hrep
    rw [hbase, htotal] at hrest
    exact hrest

/-- Only a `free` of a page makes it free. -/
theorem mem_foldl_freeAfter {base total i : ℕ} (ops : List FrameOp)
    (hi : i ∈ ops.foldl (freeAfter w base total) F) :
    i ∈ F ∨ ∃ addr, .free addr ∈ ops ∧ base + i * pageSize = pageAlign w addr := by
  induction ops generalizing F with
  | nil => exact .inl hi
  | cons op ops ih =>
    rcases ih hi with hfirst | ⟨addr, hmem, haddr⟩
    · cases op with
      | alloc => exact .inl (Finset.mem_of_mem_filter i hfirst)
      | free addr =>
        rcases Finset.mem_union.mp hfirst with hold | hnew
        · exact .inl hold
        · exact .inr ⟨addr, List.mem_cons_self, (Finset.mem_filter.mp hnew).2⟩
    · exact .inr ⟨addr, List.mem_cons_of_mem op hmem, haddr⟩

theorem pageAlign_lt (hw : 12 ≤ w) (addr : ℕ) : pageAlign w addr < 2 ^ w := by
  rw [pageAlign_eq hw]
  exact (Nat.div_mul_le_self _ _).trans_lt (Nat.mod_lt _ (Nat.two_pow_pos w))

theorem pageAlign_le (hw : 12 ≤ w) (addr : ℕ) : pageAlign w addr ≤ addr := by
  rw [pageAlign_eq hw]
  exact (Nat.div_mul_le_self _ _).trans (Nat.mod_le _ _)

theorem totalPages_init (hw : 12 ≤ w) (base size : ℕ) :
    (init w base size).totalPages = min (size / pageSize) maxPages := by
  change min ((size - (pageAlign w base - base)) / pageSize) maxPages = _
  rw [Nat.sub_eq_zero_of_le (pageAlign_le hw base), Nat.sub_zero]

/-- No two pages of the region have the same address. -/
theorem Represents.pageAddr_inj (h : a.Represents F) (hw : 32 ≤ w) {i j : ℕ}
    (hi : i < a.totalPages) (hj : j < a.totalPages) (heq : a.pageAddr w i = a.pageAddr w j) :
    i = j := by
  have htotal := h.total
  have hpow : 2 ^ 32 ≤ 2 ^ w := Nat.pow_le_pow_right (by decide) hw
  rw [maxPages] at htotal
  have hmod : i * pageSize ≡ j * pageSize [MOD 2 ^ w] := Nat.ModEq.add_left_cancel' a.baseAddr heq
  rw [Nat.ModEq, pageSize, Nat.mod_eq_of_lt (by omega), Nat.mod_eq_of_lt (by omega)] at hmod
  omega

theorem Represents.find_isFree (h : a.Represents F) {m : ℕ} (hm : m ∈ F)
    (hlow : ∀ i ∈ F, m ≤ i) : (List.range a.totalPages).find? a.isFree = some m := by
  rw [List.find?_range_eq_some]
  refine ⟨(h.bits m).mpr hm, List.mem_range.mpr (h.lt m hm), ?_⟩
  intro j hj
  rw [Bool.not_eq_true', Bool.eq_false_iff, ne_eq, h.bits]
  intro hmem
  exact absurd (hlow j hmem) (Nat.not_le.mpr hj)

theorem Represents.alloc_eq_find (h : a.Represents F) :
    (a.alloc w).1 = ((List.range a.totalPages).find? a.isFree).map (a.pageAddr w) := by
  rcases h.alloc (w := w) with ⟨hempty, halloc⟩ | ⟨m, hm, hlow, halloc⟩
  · have hnone : (List.range a.totalPages).find? a.isFree = none := by
      rw [List.find?_range_eq_none]
      intro i hi
      rw [Bool.not_eq_true', Bool.eq_false_iff, ne_eq, h.bits, hempty]
      exact Finset.notMem_empty i
    rw [halloc, hnone]
    rfl
  · rw [halloc, h.find_isFree hm hlow]
    rfl

/-- A page that `alloc` returned is not returned again before it is freed. -/
theorem Represents.alloc_fresh (h : a.Represents F) (hw : 32 ≤ w) {addr : ℕ}
    (halloc : (a.alloc w).1 = some addr) {ops : List FrameOp}
    (hkept : ∀ freed, .free freed ∈ ops → pageAlign w freed ≠ addr) :
    ((ops.foldl (FrameAllocator.exec w) (a.alloc w).2).alloc w).1 ≠ some addr := by
  rcases h.alloc (w := w) with ⟨-, hnone⟩ | ⟨m, hm, hlow, htake⟩
  · simp [hnone] at halloc
  · rw [htake] at halloc ⊢
    have haddr : a.pageAddr w m = addr := Option.some.inj halloc
    rcases (h.take hm hlow).execs (w := w) (by omega) ops with ⟨hrep, hbase, htotal⟩
    have hnot : m ∉ ops.foldl (freeAfter w a.baseAddr a.totalPages) (F.erase m) := by
      intro hin
      rcases mem_foldl_freeAfter ops hin with hin | ⟨freed, hfreed, heq⟩
      · exact Finset.notMem_erase m F hin
      · apply hkept freed hfreed
        rw [← haddr, pageAddr, heq, Nat.mod_eq_of_lt (pageAlign_lt (by omega) freed)]
    rcases hrep.alloc (w := w) with ⟨-, hnone⟩ | ⟨n, hn, -, hnext⟩
    · simp [hnone]
    · rw [hnext]
      intro hsame
      have heq : a.pageAddr w n = a.pageAddr w m := by
        rw [haddr, ← Option.some.inj hsame, pageAddr, pageAddr, hbase]
        rfl
      have hlt : n < a.totalPages := (hrep.lt n hn).trans_eq htotal
      rw [h.pageAddr_inj hw hlt (h.lt m hm) heq] at hn
      exact hnot hn

/-- After any operations on a region, `alloc` returns the lowest free page if there is
one and does not return a page twice unless it was freed in between, and the bitmap
and the counter hold exactly the free pages: those of the region, without the ones that
were returned and not freed since. -/
theorem alloc_returns_lowest_free (hw : w = 32 ∨ w = 64) (base size : ℕ) (ops : List FrameOp) :
    let a := ops.foldl (exec w) (init w base size)
    (a.alloc w).1 = ((List.range a.totalPages).find? a.isFree).map (a.pageAddr w) ∧
      (base + size ≤ 2 ^ w → ∀ i j, i < j → j < a.totalPages →
        a.pageAddr w i < a.pageAddr w j) ∧
      (∀ addr, (a.alloc w).1 = some addr → ∀ later : List FrameOp,
        (∀ freed, .free freed ∈ later → pageAlign w freed ≠ addr) →
        ((later.foldl (exec w) (a.alloc w).2).alloc w).1 ≠ some addr) ∧
      a.freePages = ((Finset.range a.totalPages).filter fun i => a.isFree i).card ∧
      (∀ i, a.totalPages ≤ i → a.isFree i = false) ∧
      a.baseAddr = pageAlign w base ∧ a.totalPages = min (size / pageSize) maxPages ∧
      ∀ i, a.isFree i = true ↔
        i ∈ ops.foldl (freeAfter w a.baseAddr a.totalPages) (Finset.range a.totalPages) := by
  have hw' : 32 ≤ w := by omega
  rcases (init_represents (w := w) (by omega) base size).execs (w := w) (by omega) ops with
    ⟨h, hbase, htotal⟩
  intro a
  change a.baseAddr = pageAlign w base at hbase
  change a.totalPages = (init w base size).totalPages at htotal
  have hsize : a.totalPages = min (size / pageSize) maxPages :=
    htotal.trans (totalPages_init (by omega) base size)
  rw [← htotal, show (init w base size).baseAddr = a.baseAddr from hbase.symm] at h
  refine ⟨h.alloc_eq_find, ?_, ?_, ?_, ?_, hbase, hsize, h.bits⟩
  · intro hregion i j hij hj
    have hpages : a.totalPages * pageSize ≤ size := by
      calc a.totalPages * pageSize
          ≤ size / pageSize * pageSize :=
            Nat.mul_le_mul_right _ (hsize.trans_le (Nat.min_le_left _ _))
        _ ≤ size := Nat.div_mul_le_self _ _
    have halign := pageAlign_le (w := w) (by omega) base
    rw [pageSize] at hpages
    rw [pageAddr, pageAddr, pageSize, Nat.mod_eq_of_lt (by omega), Nat.mod_eq_of_lt (by omega)]
    omega
  · intro addr halloc later hkept
    exact h.alloc_fresh hw' halloc hkept
  · rw [h.count]
    congr 1
    ext i
    rw [Finset.mem_filter, Finset.mem_range]
    exact ⟨fun hi => ⟨h.lt i hi, (h.bits i).mpr hi⟩, fun hi => (h.bits i).mp hi.2⟩
  · intro i hi
    rw [Bool.eq_false_iff, ne_eq, h.bits]
    intro hmem
    exact absurd (h.lt i hmem) (Nat.not_lt.mpr hi)

theorem freed_page_is_lowest_again :
    let ops : List FrameOp := [.alloc, .alloc, .free 0x80000123]
    let a := ops.foldl (exec 32) (init 32 0x80000000 0x3000)
    (a.alloc 32).1 = some 0x80000000 ∧ a.freePages = 2 := by
  intro ops a
  rcases alloc_returns_lowest_free (w := 32) (.inl rfl) 0x80000000 0x3000 ops with
    ⟨hlowest, -, -, hcount, -⟩
  exact ⟨hlowest.trans (by decide +kernel), hcount.trans (by decide +kernel)⟩

end FrameAllocator

end OpenIon.Mm
