import OpenIon.Fs.Exfat.Boundaries
import OpenIon.Fs.Exfat.Contained

/-! # What reading a file returns

`read_file` copies the clusters of a chain into the buffer of its caller, up to the length of the
file or of the buffer. On a mounted volume that can be read, what arrives is the beginning of the
clusters one after the other, whichever way the next cluster is found.
-/
namespace OpenIon.Fs.Exfat
open Lib

/-- `buf[offset..offset + src.len()].copy_from_slice(src)`. -/
def copyInto (buf : List UInt8) (offset : ℕ) (src : List UInt8) : List UInt8 :=
  buf.take offset ++ src ++ buf.drop (offset + src.length)

namespace ExfatFs

/-- The state of the loop of `read_file` with the buffer of the caller. -/
structure Filling where
  cluster : UInt32
  offset : ℕ
  buf : List UInt8

def unfilled (targetLen : ℕ) (r : Filling) : Bool :=
  r.cluster != 0 && decide (r.offset < targetLen)

def fillTurn (fs : ExfatFs) (dev : BlockDev) (chainEntry : ExfatEntry) (targetLen : ℕ)
    (r : Filling) : Io Filling := do
  let readLen := min fs.bytesPerCluster (targetLen - r.offset)
  let clBuf ← fs.readCluster dev r.cluster
  let buf := copyInto r.buf r.offset ((List.range readLen).map clBuf)
  let cluster ← fs.nextClusterForEntry dev chainEntry r.cluster
  pure ⟨cluster, r.offset + readLen, buf⟩

/-- `read_file`, with the buffer of the caller and its contents afterwards. -/
def readFileInto (fs : ExfatFs) (dev : BlockDev) (w fuel : ℕ) (startCluster : UInt32)
    (dataLength : UInt64) (noFatChain : Bool) (buf : List UInt8) : Io (ℕ × List UInt8) := do
  let targetLen := min (dataLength.toNat % 2 ^ w) buf.length
  let chainEntry : ExfatEntry :=
    ⟨[], startCluster, dataLength, false, 0, noFatChain⟩
  let r ← loop .fuel (unfilled targetLen) (fs.fillTurn dev chainEntry targetLen) fuel
    ⟨startCluster, 0, buf⟩
  pure (r.offset, r.buf)

variable {fs : ExfatFs} {dev : BlockDev} {entry : ExfatEntry} {c next : UInt32} {w n t : ℕ}
  {buf out src : List UInt8} {noFatChain : Bool} {start : UInt32} {chain : List UInt32}

/-! ### The buffer of the caller -/

def filled (buf : List UInt8) (r : Reading) : Filling :=
  ⟨r.cluster, r.out.length, r.out ++ buf.drop r.out.length⟩

theorem copyInto_filled :
    copyInto (out ++ buf.drop out.length) out.length src =
      (out ++ src) ++ buf.drop (out ++ src).length := by
  rw [copyInto, List.take_left, List.drop_append, List.drop_of_length_le (by omega),
    List.nil_append, List.drop_drop, List.length_append]
  congr 2
  omega

/-- The loop with the buffer does what the loop that collects the bytes does. -/
theorem fillLoop_eq :
    loop .fuel (unfilled t) (fs.fillTurn dev entry t) n (filled buf ⟨start, []⟩) =
      loop .fuel (unread t) (fs.readTurn dev entry t) n ⟨start, []⟩ >>= fun r =>
        pure (filled buf r) := by
  apply loop_map (filled buf)
  · intro r
    rfl
  · intro r
    rw [fillTurn, readTurn, Logged.bind_assoc]
    refine Logged.bind_congr fun clBuf _ => ?_
    rw [Logged.bind_assoc]
    refine Logged.bind_congr fun cluster _ => ?_
    simp only [filled, Logged.pure_bind, List.length_append, List.length_map, List.length_range]
    rw [copyInto_filled, List.length_append, List.length_map, List.length_range]

theorem readFileInto_eq (fs : ExfatFs) (dev : BlockDev) (w fuel : ℕ) (start : UInt32)
    (dataLength : UInt64) (noFatChain : Bool) (buf : List UInt8) :
    fs.readFileInto dev w fuel start dataLength noFatChain buf =
      fs.readFile dev w fuel start dataLength noFatChain buf.length >>= fun out =>
        pure (out.length, out ++ buf.drop out.length) := by
  have hstart : (⟨start, 0, buf⟩ : Filling) = filled buf ⟨start, []⟩ := rfl
  rw [readFileInto, readFile, hstart, fillLoop_eq, Logged.bind_assoc,
    Logged.bind_assoc]
  rfl

/-! ### Volumes and chains -/

def InHeap (fs : ExfatFs) (c : UInt32) : Prop := 2 ≤ c.toNat ∧ c.toNat < fs.clusterCount.toNat + 2

def fatSector (fs : ExfatFs) (c : UInt32) : ℕ := fs.fatOffset.toNat + c.toNat / 128

/-- The clusters and the FAT can be read, and the sector numbers of the FAT fit in 32 bits. -/
structure Intact (fs : ExfatFs) (dev : BlockDev) : Prop where
  data : ∀ c, fs.InHeap c → fs.Readable dev c
  fat : ∀ c, fs.InHeap c → (dev (fs.fatSector c)).isSome
  fits : ∀ c, fs.InHeap c → fs.fatSector c < 2 ^ 32

def sectorAt (dev : BlockDev) (n : ℕ) : Sector := (dev n).getD fun _ => 0

def clusterBytes (fs : ExfatFs) (dev : BlockDev) (c : UInt32) : List UInt8 :=
  (List.range fs.sectorsPerCluster).flatMap fun i =>
    (List.range 512).map (sectorAt dev
      (fs.clusterHeapOffset.toNat + (c.toNat - 2) * fs.sectorsPerCluster + i))

def fatWord (fs : ExfatFs) (dev : BlockDev) (c : UInt32) : UInt32 :=
  leU32 (sectorAt dev (fs.fatSector c)) (c.toNat % 128 * 4)

/-- The next cluster has the next number, or is the word in the FAT, unless that marks the end. -/
def Linked (fs : ExfatFs) (dev : BlockDev) (noFatChain : Bool) (c next : UInt32) : Prop :=
  if noFatChain then next.toNat = c.toNat + 1 else fs.fatWord dev c = next ∧ next < 0xFFFFFFF8

/-- A chain of clusters of the volume; only an empty one need not begin with `start`. -/
structure IsChain (fs : ExfatFs) (dev : BlockDev) (noFatChain : Bool) (start : UInt32)
    (chain : List UInt32) : Prop where
  head : ∀ c ∈ chain.head?, c = start
  heap : ∀ c ∈ chain, fs.InHeap c
  linked : chain.IsChain (fs.Linked dev noFatChain)

def NoOverflow (e : Event) : Prop := e ≠ .overflow

theorem gives_wrapping (h : n < 2 ^ w) : Logged.Gives NoOverflow (wrapping w n) n := by
  rw [wrapping_of_lt h]
  exact Logged.gives_pure n

theorem gives_readSector (h : (dev n).isSome) :
    Logged.Gives NoOverflow (readSector dev n) (sectorAt dev n) := by
  obtain ⟨s, hs⟩ := Option.isSome_iff_exists.mp h
  rw [readSector, sectorAt, hs]
  exact (Logged.gives_tell (by simp [NoOverflow])).bind (Logged.gives_pure s)

/-! ### One turn -/

theorem Geometry.gives_readSectors (hfs : fs.Geometry) {first i : ℕ}
    (hfirst : ∀ j < 8, first + j < 2 ^ 64) (hn : i + n ≤ fs.sectorsPerCluster)
    (hread : ∀ j < n, (dev (first + (i + j))).isSome) :
    Logged.Gives NoOverflow (fs.readSectors dev first (min fs.bytesPerCluster 4096) i n)
      ((List.range n).map fun j => sectorAt dev (first + (i + j))) := by
  induction n generalizing i with
  | zero => exact Logged.gives_pure []
  | succ n ih =>
    have hshift : ∀ j, i + 1 + j = i + (j + 1) := fun j => by omega
    have hrest := ih (i := i + 1) (by omega) fun j hj => hshift j ▸ hread (j + 1) (by omega)
    rw [hfs.readSectors_succ hfirst (by omega), List.range_succ_eq_map, List.map_cons, List.map_map]
    simp only [hshift] at hrest
    exact (gives_readSector (hread 0 (by omega))).bind (hrest.bind (Logged.gives_pure _))

theorem flatMap_range_map {α : Type} (f : ℕ → ℕ → α) {d : ℕ} (hd : 0 < d) (m : ℕ) :
    ((List.range m).flatMap fun i => (List.range d).map (f i)) =
      (List.range (d * m)).map fun k => f (k / d) (k % d) := by
  induction m with
  | zero => rfl
  | succ m ih =>
    rw [List.range_succ, List.flatMap_append, ih, Nat.mul_succ, List.range_add, List.map_append,
      List.map_map, List.flatMap_singleton]
    congr 1
    apply List.map_congr_left
    intro k hk
    have hk := List.mem_range.mp hk
    simp [Nat.mul_add_div hd, Nat.div_eq_of_lt hk, Nat.mod_eq_of_lt hk]

theorem Geometry.clusterBytes_eq (hfs : fs.Geometry) (hc : fs.InHeap c) :
    fs.clusterBytes dev c = (List.range fs.bytesPerCluster).map fun k =>
      sectorAt dev (fs.clusterToSector c + k / 512) (k % 512) := by
  have hsector : fs.clusterToSector c =
      fs.clusterHeapOffset.toNat + (c.toNat - 2) * fs.sectorsPerCluster := by
    rw [clusterToSector, if_neg]
    rw [UInt32.lt_iff_toNat_lt]
    exact Nat.not_lt.mpr hc.1
  rw [clusterBytes, ← hsector, hfs.bytesPerCluster]
  exact flatMap_range_map (fun i => sectorAt dev (fs.clusterToSector c + i)) (by decide) _

theorem Geometry.length_clusterBytes (hfs : fs.Geometry) (dev : BlockDev) (hc : fs.InHeap c) :
    (fs.clusterBytes dev c).length = fs.bytesPerCluster := by
  rw [hfs.clusterBytes_eq hc, List.length_map, List.length_range]

theorem Geometry.gives_readCluster (hfs : fs.Geometry) (hc : fs.InHeap c)
    (hread : fs.Readable dev c) :
    ∃ buf, Logged.Gives NoOverflow (fs.readCluster dev c) buf ∧
      ∀ m ≤ fs.bytesPerCluster, (List.range m).map buf = (fs.clusterBytes dev c).take m := by
  have hfirst : ∀ j < 8, fs.clusterToSector c + j < 2 ^ 64 := fun j => hfs.clusterToSector_lt
  have hsectors := hfs.gives_readSectors (i := 0) hfirst (Nat.zero_add _).le
    (fun j hj => (Nat.zero_add j).symm ▸ hread j hj)
  rw [hfs.readCluster_eq]
  refine ⟨_, (Logged.gives_tell (by simp [NoOverflow])).bind
    (hsectors.bind (Logged.gives_pure _)), ?_⟩
  intro m hm
  rw [hfs.clusterBytes_eq hc, ← List.map_take, List.take_range, min_eq_left hm]
  apply List.map_congr_left
  intro k hk
  have hrow : k / 512 < fs.sectorsPerCluster := by
    rw [hfs.bytesPerCluster] at hm
    have hk := List.mem_range.mp hk
    omega
  simp [List.getD_eq_getElem?_getD, hrow]

theorem Geometry.gives_nextCluster (hfs : fs.Geometry) (hdev : fs.Intact dev) (hc : fs.InHeap c) :
    Logged.Gives NoOverflow (fs.nextCluster dev c)
      (if 0xFFFFFFF8 ≤ fs.fatWord dev c then 0 else fs.fatWord dev c) := by
  unfold nextCluster
  rw [hfs.bytes]
  exact (gives_wrapping (hdev.fits c hc)).bind
    ((gives_readSector (hdev.fat c hc)).bind (Logged.gives_pure _))

/-- The next cluster is the one that the chain goes on with, unless the length of a contiguous file
says that it ends. -/
theorem Geometry.gives_nextClusterForEntry (hfs : fs.Geometry) (hdev : fs.Intact dev)
    (hcount : fs.clusterCount.toNat + 2 < 2 ^ 32) (entry : ExfatEntry) (hc : fs.InHeap c) :
    ∃ next, Logged.Gives NoOverflow (fs.nextClusterForEntry dev entry c) next ∧
      ∀ c', fs.Linked dev entry.noFatChain c c' → (entry.noFatChain = true →
        c.toNat - entry.firstCluster.toNat + 1 <
          max (divCeil entry.dataLength.toNat fs.bytesPerCluster) 1) → next = c' := by
  unfold nextClusterForEntry Linked
  cases entry.noFatChain with
  | false =>
    refine ⟨_, hfs.gives_nextCluster hdev hc, ?_⟩
    rintro c' ⟨rfl, hlt⟩ -
    rw [if_neg (UInt32.not_le.mpr hlt)]
  | true =>
    simp only [if_true, forall_true_left]
    have hlt : c.toNat + 1 < 2 ^ 32 := by
      have := hc.2
      omega
    split_ifs with hend
    · exact ⟨0, Logged.gives_pure 0, fun c' _ hmore => absurd hend (by omega)⟩
    · refine ⟨_, (gives_wrapping hlt).bind (Logged.gives_pure _), ?_⟩
      intro c' hc' _
      rw [← hc', UInt32.ofNat_toNat]

theorem Geometry.gives_readTurn (hfs : fs.Geometry) (hdev : fs.Intact dev) (t : ℕ)
    (out : List UInt8) (hc : fs.InHeap c) (hnext : Logged.Gives NoOverflow (fs.nextClusterForEntry dev entry c) next) :
    Logged.Gives NoOverflow (fs.readTurn dev entry t ⟨c, out⟩) ⟨next,
      out ++ (fs.clusterBytes dev c).take (t - out.length)⟩ := by
  obtain ⟨buf, hbuf, hbytes⟩ := hfs.gives_readCluster hc (hdev.data c hc)
  have htake : (List.range (min fs.bytesPerCluster (t - out.length))).map buf =
      (fs.clusterBytes dev c).take (t - out.length) := by
    rw [hbytes _ (min_le_left _ _), ← hfs.length_clusterBytes dev hc, min_comm,
      ← List.take_eq_take_min]
  rw [← htake]
  exact hbuf.bind (hnext.bind (Logged.gives_pure _))

/-! ### The loop -/

def chainBytes (fs : ExfatFs) (dev : BlockDev) (chain : List UInt32) : List UInt8 :=
  chain.flatMap (fs.clusterBytes dev)

theorem Geometry.length_chainBytes (hfs : fs.Geometry) (dev : BlockDev)
    (hheap : ∀ c ∈ chain, fs.InHeap c) :
    (fs.chainBytes dev chain).length = chain.length * fs.bytesPerCluster := by
  induction chain with
  | nil => simp [chainBytes]
  | cons c cs ih =>
    have hrest := ih fun d hd => hheap d (List.mem_cons_of_mem c hd)
    have hfirst := hfs.length_clusterBytes dev (hheap c List.mem_cons_self)
    simp only [chainBytes] at hrest
    rw [chainBytes, List.flatMap_cons, List.length_append, hrest, hfirst, List.length_cons,
      Nat.succ_mul, Nat.add_comm]

theorem lt_divCeil {L b i : ℕ} (hb : 0 < b) (h : i * b < L) : i < divCeil L b := by
  have hdiv := Nat.div_add_mod L b
  have hle : i ≤ L / b := (Nat.le_div_iff_mul_le hb).mpr h.le
  rw [divCeil]
  split_ifs with hmod
  · omega
  · have hne : i ≠ L / b := by
      rintro rfl
      have hzero : L % b = 0 := by omega
      rw [hzero, Nat.mul_comm] at hdiv
      omega
    omega

theorem le_mul_of_divCeil_le {L b m : ℕ} (hb : 0 < b) (h : divCeil L b ≤ m) : L ≤ m * b := by
  by_contra hlt
  have := lt_divCeil hb (Nat.lt_of_not_le hlt)
  omega

theorem InHeap.unread (hc : fs.InHeap c) (hlt : out.length < t) : unread t ⟨c, out⟩ = true := by
  have hne : c ≠ 0 := by
    rintro rfl
    exact absurd hc.1 (by decide)
  simp [ExfatFs.unread, hne, hlt]

theorem Geometry.gives_lastTurn (hfs : fs.Geometry) (hdev : fs.Intact dev) (hc : fs.InHeap c)
    (hnext : Logged.Gives NoOverflow (fs.nextClusterForEntry dev entry c) next)
    (hlt : out.length < t) (hle : t ≤ out.length + fs.bytesPerCluster) (hn : 1 < n) :
    Logged.Gives NoOverflow (loop .fuel (unread t) (fs.readTurn dev entry t) n ⟨c, out⟩)
      ⟨next, out ++ (fs.clusterBytes dev c).take (t - out.length)⟩ := by
  obtain ⟨m, rfl⟩ : ∃ m, n = m + 1 + 1 := ⟨n - 2, by omega⟩
  have hlength := hfs.length_clusterBytes dev hc
  rw [loop_more (hc.unread hlt)]
  refine (hfs.gives_readTurn hdev t out hc hnext).bind ?_
  rw [loop_stop]
  · exact Logged.gives_pure _
  · simp only [unread, List.length_append, List.length_take, hlength, Bool.and_eq_false_imp,
      decide_eq_false_iff_not]
    omega

/-- From the `i`-th cluster of the chain on, the loop appends what is missing. -/
theorem Geometry.gives_readLoop (hfs : fs.Geometry) (hdev : fs.Intact dev)
    (hcount : fs.clusterCount.toNat + 2 < 2 ^ 32) (entry : ExfatEntry) {i : ℕ} {cs : List UInt32}
    (out : List UInt8) (hheap : ∀ d ∈ c :: cs, fs.InHeap d)
    (hlinked : (c :: cs).IsChain (fs.Linked dev entry.noFatChain))
    (hpos : entry.noFatChain = true → c.toNat = entry.firstCluster.toNat + i)
    (hout : out.length = i * fs.bytesPerCluster) (hlt : out.length < t)
    (ht : t ≤ entry.dataLength.toNat)
    (henough : t ≤ out.length + (cs.length + 1) * fs.bytesPerCluster) (hn : cs.length + 1 < n) :
    ∃ last, Logged.Gives NoOverflow
      (loop .fuel (unread t) (fs.readTurn dev entry t) n ⟨c, out⟩)
      ⟨last, out ++ (fs.chainBytes dev (c :: cs)).take (t - out.length)⟩ := by
  induction cs generalizing c out i n with
  | nil =>
    have hc := hheap c List.mem_cons_self
    obtain ⟨next, hnext, -⟩ := hfs.gives_nextClusterForEntry hdev hcount entry hc
    refine ⟨next, ?_⟩
    simp only [chainBytes, List.flatMap_cons, List.flatMap_nil, List.append_nil]
    exact hfs.gives_lastTurn hdev hc hnext hlt (by simpa using henough) (by omega)
  | cons c' cs ih =>
    have hc := hheap c List.mem_cons_self
    have hlength := hfs.length_clusterBytes dev hc
    obtain ⟨next, hnext, hgoes⟩ := hfs.gives_nextClusterForEntry hdev hcount entry hc
    have htake : (fs.chainBytes dev (c :: c' :: cs)).take (t - out.length) =
        (fs.clusterBytes dev c).take (t - out.length) ++
          (fs.chainBytes dev (c' :: cs)).take (t - (out.length + fs.bytesPerCluster)) := by
      rw [chainBytes, List.flatMap_cons, List.take_append, hlength, ← Nat.sub_sub]
      rfl
    by_cases hle : t ≤ out.length + fs.bytesPerCluster
    · refine ⟨next, ?_⟩
      rw [htake, Nat.sub_eq_zero_of_le hle, List.take_zero, List.append_nil]
      exact hfs.gives_lastTurn hdev hc hnext hlt hle (by omega)
    · -- the whole cluster is copied, and there is a next one
      have hsize := hfs.bytesPerCluster_pos
      have hend : (i + 1) * fs.bytesPerCluster < t := by
        rw [Nat.succ_mul]
        omega
      obtain ⟨hlink, hlinked⟩ := List.isChain_cons_cons.mp hlinked
      obtain rfl : next = c' := by
        apply hgoes c' hlink
        intro hflag
        have hmore := lt_divCeil hsize (hend.trans_le ht)
        rw [hpos hflag]
        omega
      have hpos' : entry.noFatChain = true → next.toNat = entry.firstCluster.toNat + (i + 1) := by
        intro hflag
        rw [Linked, if_pos hflag] at hlink
        rw [hlink, hpos hflag]
        omega
      have hout' : (out ++ fs.clusterBytes dev c).length = (i + 1) * fs.bytesPerCluster := by
        rw [List.length_append, hlength, hout, Nat.succ_mul]
      obtain ⟨m, rfl⟩ : ∃ m, n = m + 1 := ⟨n - 1, by omega⟩
      have hturn := hfs.gives_readTurn hdev t out hc hnext
      rw [List.take_of_length_le (by omega)] at hturn
      obtain ⟨last, hrest⟩ := ih (n := m) _ (fun d hd => hheap d (List.mem_cons_of_mem c hd)) hlinked
        hpos' hout' (hout' ▸ hend) (by
          rw [List.length_cons, Nat.succ_mul] at henough
          rw [List.length_append, hlength]
          omega) (by
          rw [List.length_cons] at hn
          omega)
      refine ⟨last, ?_⟩
      rw [List.length_append, hlength, List.append_assoc] at hrest
      rw [loop_more (hc.unread hlt), htake, List.take_of_length_le (by omega)]
      exact hturn.bind hrest

theorem Geometry.gives_readFile (hfs : fs.Geometry) (hdev : fs.Intact dev)
    (hcount : fs.clusterCount.toNat + 2 < 2 ^ 32) {dataLength : UInt64} {fuel : ℕ} (bufLen : ℕ)
    (hw : dataLength.toNat < 2 ^ w) (hchain : fs.IsChain dev noFatChain start chain)
    (hlen : divCeil dataLength.toNat fs.bytesPerCluster ≤ chain.length)
    (hfuel : chain.length < fuel) :
    Logged.Gives NoOverflow (fs.readFile dev w fuel start dataLength noFatChain bufLen)
      ((fs.chainBytes dev chain).take (min dataLength.toNat bufLen)) := by
  have hsize := hfs.bytesPerCluster_pos
  have henough := le_mul_of_divCeil_le hsize hlen
  unfold readFile
  rw [Nat.mod_eq_of_lt hw]
  dsimp only
  generalize ht : min dataLength.toNat bufLen = t
  by_cases hzero : t = 0
  · subst hzero
    obtain ⟨m, rfl⟩ : ∃ m, fuel = m + 1 := ⟨fuel - 1, by omega⟩
    rw [loop_stop (by simp [unread]), List.take_zero]
    exact (Logged.gives_pure _).bind (Logged.gives_pure _)
  · cases chain with
    | nil =>
      rw [List.length_nil, Nat.zero_mul] at henough
      omega
    | cons c cs =>
      obtain rfl := hchain.head c rfl
      rw [List.length_cons] at henough hfuel
      obtain ⟨last, hloop⟩ := hfs.gives_readLoop (i := 0) (n := fuel) (t := t) hdev hcount
        ⟨[], c, dataLength, false, 0, noFatChain⟩ [] hchain.heap hchain.linked
        (fun _ => rfl) (by simp) (by simpa using Nat.pos_of_ne_zero hzero) (by dsimp only; omega)
        (by simp only [List.length_nil]; omega) hfuel
      exact hloop.bind (Logged.gives_pure _)

end ExfatFs

/-- On a mounted volume that can be read, `read_file` returns the smaller one of the two lengths and
copies as many bytes of the chain into the buffer, the rest of which stays as it is. For a chain
with consecutive numbers both ways to follow it give the same. -/
theorem read_file_returns_chain {dev : BlockDev} {fs : ExfatFs}
    (hmount : (mount dev).value = .ok fs) (hdev : fs.Intact dev) (w fuel : ℕ) (start : UInt32)
    (dataLength : UInt64) (hw : dataLength.toNat < 2 ^ w) (chain : List UInt32)
    (hlen : divCeil dataLength.toNat fs.bytesPerCluster ≤ chain.length)
    (hfuel : chain.length < fuel) (buf : List UInt8) :
    (∀ noFatChain, fs.IsChain dev noFatChain start chain →
      Logged.Gives ExfatFs.NoOverflow
        (fs.readFileInto dev w fuel start dataLength noFatChain buf)
        (min dataLength.toNat buf.length,
          (fs.chainBytes dev chain).take (min dataLength.toNat buf.length) ++
            buf.drop (min dataLength.toNat buf.length))) ∧
    (fs.IsChain dev false start chain →
      chain.IsChain (fun c next => next.toNat = c.toNat + 1) →
        (fs.readFileInto dev w fuel start dataLength true buf).value =
          (fs.readFileInto dev w fuel start dataLength false buf).value) := by
  have hfs := mount_geometry hmount
  have hcount : fs.clusterCount.toNat + 2 < 2 ^ 32 := by
    obtain ⟨sector0, hzero, -, -, rfl⟩ := mount_eq_ok.mp hmount
    exact mount_clusterCount hzero hmount
  have hread : ∀ noFatChain, fs.IsChain dev noFatChain start chain →
      Logged.Gives ExfatFs.NoOverflow
        (fs.readFileInto dev w fuel start dataLength noFatChain buf)
        (min dataLength.toNat buf.length,
          (fs.chainBytes dev chain).take (min dataLength.toNat buf.length) ++
            buf.drop (min dataLength.toNat buf.length)) := by
    intro noFatChain hchain
    have hsize := hfs.bytesPerCluster_pos
    have henough := ExfatFs.le_mul_of_divCeil_le hsize hlen
    have hout := hfs.gives_readFile hdev hcount buf.length hw hchain hlen hfuel
    have hlength : ((fs.chainBytes dev chain).take (min dataLength.toNat buf.length)).length =
        min dataLength.toNat buf.length := by
      rw [List.length_take, hfs.length_chainBytes dev hchain.heap]
      omega
    rw [ExfatFs.readFileInto_eq]
    have hresult := hout.bind (f := fun out => pure (out.length, out ++ buf.drop out.length))
      (Logged.gives_pure _)
    rwa [hlength] at hresult
  refine ⟨hread, ?_⟩
  intro hfat hconsecutive
  have hcontiguous : fs.IsChain dev true start chain := ⟨hfat.head, hfat.heap, hconsecutive⟩
  rw [(hread true hcontiguous).value, (hread false hfat).value]

theorem two_clusters_are_read :
    twoClustersFs.Intact (twoClusters 13) ∧
      twoClustersFs.IsChain (twoClusters 13) false 2 [2, 3] ∧
      Logged.Gives ExfatFs.NoOverflow
        (twoClustersFs.readFileInto (twoClusters 13) 32 3 2 700 false (List.replicate 800 0))
        (700, (twoClustersFs.chainBytes (twoClusters 13) [2, 3]).take 700 ++
          List.replicate 100 0) := by
  have hcount : twoClustersFs.clusterCount = 2 := by decide +kernel
  have hclusters : ∀ c, twoClustersFs.InHeap c → c = 2 ∨ c = 3 := by
    intro c hc
    obtain ⟨hle, hlt⟩ := hc
    rw [hcount] at hlt
    change c.toNat < 4 at hlt
    have hcases : c.toNat = 2 ∨ c.toNat = 3 := by omega
    exact hcases.imp UInt32.toNat_inj.mp UInt32.toNat_inj.mp
  have hdev : twoClustersFs.Intact (twoClusters 13) := by
    constructor
    · intro c hc
      rcases hclusters c hc with rfl | rfl
      · unfold ExfatFs.Readable
        decide +kernel
      · unfold ExfatFs.Readable
        decide +kernel
    · intro c hc
      rcases hclusters c hc with rfl | rfl
      · decide +kernel
      · decide +kernel
    · intro c hc
      rcases hclusters c hc with rfl | rfl
      · decide +kernel
      · decide +kernel
  have htwo : twoClustersFs.InHeap 2 := by
    unfold ExfatFs.InHeap
    decide +kernel
  have hthree : twoClustersFs.InHeap 3 := by
    unfold ExfatFs.InHeap
    decide +kernel
  have hlink : twoClustersFs.Linked (twoClusters 13) false 2 3 := by
    refine ⟨?_, ?_⟩
    · decide +kernel
    · decide +kernel
  have hchain : twoClustersFs.IsChain (twoClusters 13) false 2 [2, 3] :=
    ⟨by simp, by simp [htwo, hthree], by simp [hlink]⟩
  have hlen : divCeil (700 : UInt64).toNat twoClustersFs.bytesPerCluster ≤ [2, 3].length := by
    decide +kernel
  have hmin : min (700 : UInt64).toNat (List.replicate 800 (0 : UInt8)).length = 700 := by
    rw [List.length_replicate]
    decide
  have hw : (700 : UInt64).toNat < 2 ^ 32 := by simp
  have hread := (read_file_returns_chain (mount_twoClusters 13) hdev 32 3 2 700 hw [2, 3] hlen
    (Nat.lt_succ_self 2) (List.replicate 800 0)).1 false hchain
  rw [hmin, List.drop_replicate] at hread
  exact ⟨hdev, hchain, hread⟩

end OpenIon.Fs.Exfat
