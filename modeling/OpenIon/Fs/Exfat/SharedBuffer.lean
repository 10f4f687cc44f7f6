import OpenIon.Lib.Interleave
import OpenIon.Fs.Exfat.ReadFile

/-! # The shared cluster buffer

All calls of `read_file` and `list_entry_dir` read clusters into the one static `CLUSTER_BUF` and
copy or parse them from there. Tasks may be switched in between, so that another call has filled
the buffer in the meantime. A call that is not disturbed in this way returns what it returns when
it runs alone.
-/
namespace OpenIon.Fs.Exfat
open Lib

abbrev ClusterBuf := ℕ → UInt8

namespace ExfatFs

/-- The loop of `read_cluster` with the buffer it fills. What was written before an error stays. -/
def fillSectors (fs : ExfatFs) (dev : BlockDev) (start len : ℕ) :
    ℕ → ℕ → ClusterBuf → Bool × ClusterBuf
  | _, 0, buf => (true, buf)
  | i, n + 1, buf =>
    if len < i * fs.bytesPerSector + fs.bytesPerSector then (true, buf)
    else
      match dev ((start + i) % 2 ^ 64) with
      | none => (false, buf)
      | some sector => fillSectors fs dev start len (i + 1) n fun k =>
          if i * fs.bytesPerSector ≤ k ∧ k < i * fs.bytesPerSector + fs.bytesPerSector then
            sector (k - i * fs.bytesPerSector)
          else buf k

def fillCluster (fs : ExfatFs) (dev : BlockDev) (cluster : UInt32) (buf : ClusterBuf) :
    Bool × ClusterBuf :=
  fs.fillSectors dev (fs.clusterToSector cluster % 2 ^ 64) (min fs.bytesPerCluster 4096) 0
    fs.sectorsPerCluster buf

/-- The state of the loop of `list_entry_dir` with the calls of the callback so far. -/
structure Listing where
  cluster : UInt32
  entries : List ExfatEntry

end ExfatFs

open ExfatFs (Filling Listing)

/-- What a call works on: the chain, and the state of its loop. -/
inductive Job where
  | readFile (chainEntry : ExfatEntry) (targetLen : ℕ) (r : Filling)
  | listEntryDir (dir : ExfatEntry) (l : Listing)

namespace Job

def chain : Job → ExfatEntry
  | readFile chainEntry _ _ => chainEntry
  | listEntryDir dir _ => dir

def cluster : Job → UInt32
  | readFile _ _ r => r.cluster
  | listEntryDir _ l => l.cluster

def more : Job → Bool
  | readFile _ targetLen r => ExfatFs.unfilled targetLen r
  | listEntryDir _ l => l.cluster != 0

def reports (fs : ExfatFs) (buf : ClusterBuf) : Job → List ExfatEntry
  | readFile _ _ _ => []
  | listEntryDir _ _ => parseEntries (fs.dirEntries buf) 0

/-- Copy or parse what the buffer holds. -/
def use (fs : ExfatFs) (buf : ClusterBuf) : Job → Job
  | readFile chainEntry targetLen r =>
    let readLen := min fs.bytesPerCluster (targetLen - r.offset)
    readFile chainEntry targetLen
      ⟨r.cluster, r.offset + readLen, copyInto r.buf r.offset ((List.range readLen).map buf)⟩
  | listEntryDir dir l =>
    listEntryDir dir ⟨l.cluster, l.entries ++ parseEntries (fs.dirEntries buf) 0⟩

def goTo (cluster : UInt32) : Job → Job
  | readFile chainEntry targetLen r => readFile chainEntry targetLen { r with cluster := cluster }
  | listEntryDir dir l => listEntryDir dir { l with cluster := cluster }

end Job

/-- Where a call stands: before `read_cluster`, before the use of the buffer, or returned. -/
inductive CallPhase where
  | fill
  | use
  | returned (ok : Bool)
  deriving DecidableEq

/-- A device with the volume that was mounted from it. -/
structure Volume where
  fs : ExfatFs
  dev : BlockDev
  mounted : (mount dev).value = .ok fs

structure Call where
  vol : Volume
  phase : CallPhase
  job : Job

/-- What the caller gets: the result with the buffer, or whether the listing went through and for
which entries the callback was called. -/
inductive Outcome where
  | read (result : Option ℕ) (buf : List UInt8)
  | listed (ok : Bool) (entries : List ExfatEntry)
  deriving DecidableEq

namespace Call

def readFile (vol : Volume) (w : ℕ) (startCluster : UInt32) (dataLength : UInt64)
    (noFatChain : Bool) (buf : List UInt8) : Call :=
  ⟨vol, .fill, .readFile ⟨[], startCluster, dataLength, false, 0, noFatChain⟩
    (min (dataLength.toNat % 2 ^ w) buf.length) ⟨startCluster, 0, buf⟩⟩

def listEntryDir (vol : Volume) (dir : ExfatEntry) : Call :=
  ⟨vol, .fill, .listEntryDir dir ⟨dir.firstCluster, []⟩⟩

/-- A whole `read_cluster`, or a whole copy or parse with the step to the next cluster. -/
def step (c : Call) (buf : ClusterBuf) : Option (Call × ClusterBuf) :=
  match c.phase with
  | .fill =>
    if c.job.more then
      let (ok, buf) := c.vol.fs.fillCluster c.vol.dev c.job.cluster buf
      some ({ c with phase := if ok then .use else .returned false }, buf)
    else some ({ c with phase := .returned true }, buf)
  | .use =>
    let job := c.job.use c.vol.fs buf
    match (c.vol.fs.nextClusterForEntry c.vol.dev job.chain job.cluster).value with
    | .ok next => some ({ c with phase := .fill, job := job.goTo next }, buf)
    | .error _ => some ({ c with phase := .returned false, job := job }, buf)
  | .returned _ => none

def outcome (ok : Bool) : Job → Outcome
  | .readFile _ _ r => .read (if ok then some r.offset else none) r.buf
  | .listEntryDir _ l => .listed ok l.entries

def result (c : Call) : Option Outcome :=
  match c.phase with
  | .returned ok => some (outcome ok c.job)
  | _ => none

/-- The next step is a `read_cluster`. -/
def fills (c : Call) : Bool := c.phase = .fill && c.job.more

/-- The call, run alone with this content of the buffer, has returned this after `n` steps. -/
def ReturnsAfter (c : Call) (buf : ClusterBuf) (n : ℕ) (r : Outcome) : Prop :=
  ∃ c' buf', iter (fun p => step p.1 p.2) n (c, buf) = some (c', buf') ∧ c'.result = some r

/-- The call, run alone with this content of the buffer, returns this. -/
def ReturnsAlone (c : Call) (buf : ClusterBuf) (r : Outcome) : Prop :=
  ∃ n, c.ReturnsAfter buf n r

end Call

variable {ι : Type*}

/-- After these steps a call has returned what it returns alone in as many steps of its own. -/
def Isolated [DecidableEq ι] (w : Interleaved ι Call ClusterBuf) (acts : List ι) : Prop :=
  ∀ w', run (interleave Call.step) w acts = some w' → ∀ i r,
    (w'.locals i).result = some r ↔ (w.locals i).ReturnsAfter w.shared (acts.count i) r

/-- A call does not fill the buffer while another one has filled it and not yet used it. -/
def NotIntruding (w : Interleaved ι Call ClusterBuf) (i : ι) : Prop :=
  (w.locals i).fills = true → ∀ j, j ≠ i → (w.locals j).phase ≠ .use

instance NotIntruding.instDecidable [Fintype ι] [DecidableEq ι]
    (w : Interleaved ι Call ClusterBuf) (i : ι) : Decidable (NotIntruding w i) :=
  inferInstanceAs (Decidable
    ((w.locals i).fills = true → ∀ j, j ≠ i → (w.locals j).phase ≠ .use))

/-! ### Filling the buffer -/

namespace ExfatFs

variable {fs : ExfatFs} {dev : BlockDev} {start len i n : ℕ} {b b' : ClusterBuf} {c : UInt32}
  {e : Stop}

/-- The sectors that are read stand in the buffer, and the bytes before them are kept. -/
theorem fillSectors_ok {l : List Sector} (hread : (fs.readSectors dev start len i n).value = .ok l)
    (buf : ClusterBuf) :
    ∃ b, fs.fillSectors dev start len i n buf = (true, b) ∧
      (∀ k < i * fs.bytesPerSector, b k = buf k) ∧
      ∀ j < l.length, ∀ k < fs.bytesPerSector,
        b ((i + j) * fs.bytesPerSector + k) = l.getD j (fun _ => 0) k := by
  induction n generalizing i buf l with
  | zero =>
    cases hread
    exact ⟨buf, rfl, fun _ _ => rfl, fun j hj => absurd hj (Nat.not_lt_zero j)⟩
  | succ n ih =>
    rw [readSectors] at hread
    rw [fillSectors]
    split at hread
    case isTrue h =>
      cases hread
      rw [if_pos h]
      exact ⟨buf, rfl, fun _ _ => rfl, fun j hj => absurd hj (Nat.not_lt_zero j)⟩
    case isFalse h =>
      rw [Logged.value_bind_ok wrapping_value] at hread
      obtain ⟨s, hs, hread⟩ := Logged.value_bind_eq_ok.mp hread
      obtain ⟨rest, hrest, ⟨⟩⟩ := Logged.value_bind_eq_ok.mp hread
      rw [if_neg h, readSector_eq_ok.mp hs]
      obtain ⟨b, hb, hbefore, hafter⟩ := ih hrest _
      rw [Nat.succ_mul] at hbefore
      refine ⟨b, hb, fun k hk => ?_, fun j hj k hk => ?_⟩
      · exact (hbefore k (by omega)).trans (if_neg (by omega))
      · cases j with
        | zero =>
          rw [Nat.add_zero]
          refine (hbefore _ (by omega)).trans ((if_pos (by omega)).trans ?_)
          rw [Nat.add_sub_cancel_left]
          rfl
        | succ j =>
          rw [← Nat.add_assoc, Nat.add_right_comm]
          exact hafter j (Nat.lt_of_succ_lt_succ hj) k hk

theorem fillSectors_fails (hread : (fs.readSectors dev start len i n).value = .error e)
    (buf : ClusterBuf) : (fs.fillSectors dev start len i n buf).1 = false := by
  induction n generalizing i buf with
  | zero => cases hread
  | succ n ih =>
    rw [readSectors] at hread
    rw [fillSectors]
    split at hread
    case isTrue h => cases hread
    case isFalse h =>
      rw [Logged.value_bind_ok wrapping_value] at hread
      rw [if_neg h]
      cases hs : dev ((start + i) % 2 ^ 64) with
      | none => rfl
      | some s =>
        rw [Logged.value_bind_ok (readSector_eq_ok.mpr hs)] at hread
        obtain hrest | ⟨_, -, ⟨⟩⟩ := Logged.value_bind_eq_error.mp hread
        exact ih hrest _

/-- When the cluster can be read, its bytes stand in the buffer, whatever was there before. -/
theorem Geometry.fillCluster_ok (hfs : fs.Geometry) (hread : (fs.readCluster dev c).value = .ok b)
    (buf : ClusterBuf) : ∃ b', fs.fillCluster dev c buf = (true, b') ∧
      ∀ k < fs.bytesPerCluster, b' k = b k := by
  have hstart : ∀ j < 8, fs.clusterToSector c + j < 2 ^ 64 := fun j => hfs.clusterToSector_lt
  rw [hfs.readCluster_eq, Logged.value_bind_ok (Logged.value_tell _)] at hread
  obtain ⟨l, hl, ⟨⟩⟩ := Logged.value_bind_eq_ok.mp hread
  have hlength : l.length = fs.sectorsPerCluster := by
    have hmap := (hfs.readSectors_eq_ok hstart (Nat.zero_add _).le).mp hl
    simpa using (congrArg List.length hmap).symm
  obtain ⟨b', hb', -, hbytes⟩ := fillSectors_ok hl buf
  rw [hfs.bytes] at hbytes
  refine ⟨b', ?_, fun k hk => ?_⟩
  · have hfirst : fs.clusterToSector c < 2 ^ 64 := hstart 0 (by omega)
    rw [fillCluster, Nat.mod_eq_of_lt hfirst, hb']
  · rw [hfs.bytesPerCluster] at hk
    have hbyte := hbytes (k / 512) (by omega) (k % 512) (Nat.mod_lt k (by omega))
    rwa [Nat.zero_add, show k / 512 * 512 + k % 512 = k by omega] at hbyte

theorem fillCluster_fails (hread : (fs.readCluster dev c).value = .error e) (buf : ClusterBuf) :
    (fs.fillCluster dev c buf).1 = false := by
  rw [readCluster, Logged.value_bind_ok (Logged.value_tell _),
    Logged.value_bind_ok wrapping_value] at hread
  obtain hsectors | ⟨_, -, ⟨⟩⟩ := Logged.value_bind_eq_error.mp hread
  exact fillSectors_fails hsectors buf

theorem dirEntries_congr (h : ∀ k < fs.bytesPerCluster, b k = b' k) :
    fs.dirEntries b = fs.dirEntries b' := by
  unfold dirEntries
  apply List.map_congr_left
  intro p hp
  have hp := List.mem_range.mp hp
  simp only [DirEntry.parse, DirEntry.mk.injEq]
  constructor
  · exact h _ (by omega)
  · funext k
    split_ifs with hk
    · exact h _ (by omega)
    · rfl

end ExfatFs

theorem Job.use_congr {fs : ExfatFs} {b b' : ClusterBuf} (job : Job)
    (h : ∀ k < fs.bytesPerCluster, b k = b' k) : job.use fs b = job.use fs b' := by
  cases job with
  | readFile chainEntry targetLen r =>
    have hmap : (List.range (min fs.bytesPerCluster (targetLen - r.offset))).map b =
        (List.range (min fs.bytesPerCluster (targetLen - r.offset))).map b' := by
      apply List.map_congr_left
      intro k hk
      exact h k (by have := List.mem_range.mp hk; omega)
    simp only [use, hmap]
  | listEntryDir dir l => simp only [use, ExfatFs.dirEntries_congr h]

/-! ### Undisturbed calls -/

namespace Call

variable {c c' : Call} {b b' a : ClusterBuf}

/-- The contents of the buffer are the same to the call: it only reads them before it has used what
it filled in. -/
def Agree (c : Call) (b b' : ClusterBuf) : Prop :=
  c.phase = .use → ∀ k < c.vol.fs.bytesPerCluster, b k = b' k

theorem geometry (c : Call) : c.vol.fs.Geometry := mount_geometry c.vol.mounted

theorem step_more (hphase : c.phase = .fill) (hmore : c.job.more = true) :
    c.step b = some ({ c with phase :=
        if (c.vol.fs.fillCluster c.vol.dev c.job.cluster b).1 then .use else .returned false },
      (c.vol.fs.fillCluster c.vol.dev c.job.cluster b).2) := by
  simp [step, hphase, hmore]

theorem step_stop (hphase : c.phase = .fill) (hmore : c.job.more = false) :
    c.step b = some ({ c with phase := .returned true }, b) := by
  simp [step, hphase, hmore]

theorem step_use_ok (hphase : c.phase = .use) {next : UInt32}
    (hnext : (c.vol.fs.nextClusterForEntry c.vol.dev (c.job.use c.vol.fs b).chain
      (c.job.use c.vol.fs b).cluster).value = .ok next) :
    c.step b = some ({ c with phase := .fill, job := (c.job.use c.vol.fs b).goTo next }, b) := by
  simp [step, hphase, hnext]

theorem step_use_error (hphase : c.phase = .use) {e : Stop}
    (hnext : (c.vol.fs.nextClusterForEntry c.vol.dev (c.job.use c.vol.fs b).chain
      (c.job.use c.vol.fs b).cluster).value = .error e) :
    c.step b = some ({ c with phase := .returned false, job := c.job.use c.vol.fs b }, b) := by
  simp [step, hphase, hnext]

theorem shared_of_step (h : c.step b = some (c', b')) (hfills : c.fills = false) : b' = b := by
  unfold step at h
  split at h
  next hphase =>
    have hmore : c.job.more = false := by simpa [fills, hphase] using hfills
    rw [hmore] at h
    cases h
    rfl
  next hphase =>
    dsimp only at h
    split at h
    · cases h
      rfl
    · cases h
      rfl
  next => cases h

/-- With contents that are the same to it, the call does the same. -/
theorem Agree.step (h : c.Agree a b) (hstep : c.step a = some (c', b')) :
    ∃ d, c.step b = some (c', d) ∧ c'.Agree b' d := by
  cases hphase : c.phase with
  | fill =>
    cases hmore : c.job.more with
    | false =>
      rw [step_stop hphase hmore] at hstep
      cases hstep
      exact ⟨b, step_stop hphase hmore, by rintro ⟨⟩⟩
    | true =>
      rw [step_more hphase hmore] at hstep
      cases hread : (c.vol.fs.readCluster c.vol.dev c.job.cluster).value with
      | ok buf =>
        -- both buffers hold the cluster now
        obtain ⟨a', ha', hbytes⟩ := c.geometry.fillCluster_ok hread a
        obtain ⟨d, hd, hbytes'⟩ := c.geometry.fillCluster_ok hread b
        simp only [ha', if_true] at hstep
        cases hstep
        refine ⟨d, by rw [step_more hphase hmore, hd]; rfl, ?_⟩
        intro _ k hk
        rw [hbytes k hk, hbytes' k hk]
      | error e =>
        simp only [ExfatFs.fillCluster_fails hread a, Bool.false_eq_true, if_false] at hstep
        cases hstep
        refine ⟨(c.vol.fs.fillCluster c.vol.dev c.job.cluster b).2, ?_, by rintro ⟨⟩⟩
        rw [step_more hphase hmore, ExfatFs.fillCluster_fails hread b]
        rfl
  | use =>
    have hjob := c.job.use_congr (h hphase)
    cases hnext : (c.vol.fs.nextClusterForEntry c.vol.dev (c.job.use c.vol.fs b).chain
        (c.job.use c.vol.fs b).cluster).value with
    | ok next =>
      rw [step_use_ok hphase (hjob ▸ hnext), hjob] at hstep
      cases hstep
      exact ⟨b, step_use_ok hphase hnext, by rintro ⟨⟩⟩
    | error e =>
      rw [step_use_error hphase (hjob ▸ hnext), hjob] at hstep
      cases hstep
      exact ⟨b, step_use_error hphase hnext, by rintro ⟨⟩⟩
  | returned ok =>
    rw [Call.step, hphase] at hstep
    cases hstep

end Call

/-! ### Calls that run alone -/

namespace Job

variable {fs : ExfatFs} {dev : BlockDev} {b : ClusterBuf} {next : UInt32}

def turn (fs : ExfatFs) (dev : BlockDev) (job : Job) : Io Job := do
  let buf ← fs.readCluster dev job.cluster
  Logged.tellAll ((job.reports fs buf).map Event.entry)
  let next ← fs.nextClusterForEntry dev job.chain job.cluster
  pure ((job.use fs buf).goTo next)

def entries : Job → List ExfatEntry
  | readFile _ _ _ => []
  | listEntryDir _ l => l.entries

@[simp] theorem chain_use (job : Job) : (job.use fs b).chain = job.chain := by cases job <;> rfl

@[simp] theorem cluster_use (job : Job) : (job.use fs b).cluster = job.cluster := by
  cases job <;> rfl

@[simp] theorem entries_use (job : Job) :
    (job.use fs b).entries = job.entries ++ job.reports fs b := by
  cases job <;> rfl

@[simp] theorem entries_goTo (job : Job) : (job.goTo next).entries = job.entries := by
  cases job <;> rfl

theorem turn_of_read {job : Job} (hread : (fs.readCluster dev job.cluster).value = .ok b) :
    (job.turn fs dev).value = (fs.nextClusterForEntry dev job.chain job.cluster >>= fun next =>
        pure ((job.use fs b).goTo next)).value ∧
      reported (job.turn fs dev).log = job.reports fs b := by
  have hsilent : Silent (fs.nextClusterForEntry dev job.chain job.cluster >>= fun next =>
      pure ((job.use fs b).goTo next)) := ExfatFs.silent_nextClusterForEntry.bind fun _ => rfl
  constructor
  · rw [turn, Logged.value_bind_ok hread, Logged.value_bind_ok (Logged.value_tellAll _)]
  · rw [turn, reported_bind_ok hread, reported_bind_ok (Logged.value_tellAll _), hsilent,
      ExfatFs.silent_readCluster, Logged.log_tellAll, reported_map_entry, List.append_nil]
    rfl

theorem turn_read_fails {job : Job} {e : Stop}
    (hread : (fs.readCluster dev job.cluster).value = .error e) :
    (job.turn fs dev).value = .error e ∧ reported (job.turn fs dev).log = [] := by
  constructor
  · rw [turn, Logged.value_bind_error hread]
  · rw [turn, Logged.log_bind_error hread, ExfatFs.silent_readCluster]

end Job

/-- A turn fails only because a sector cannot be read. -/
theorem eq_err_of_finishes {α : Type} {x : Io α} {e : Stop} (h : Finishes x)
    (hvalue : x.value = .error e) : e = .err := by
  cases e with
  | err => rfl
  | fuel => exact absurd hvalue h

namespace Call

variable {c c' : Call} {b b' : ClusterBuf} {job job' : Job} {vol : Volume} {ok : Bool} {n : ℕ}

/-- What the loop of the call gives, for the way it returned. -/
structure Loops (vol : Volume) (job : Job) (ok : Bool) (job' : Job) (fuel : ℕ) : Prop where
  done : ok = true → (loop .fuel Job.more (Job.turn vol.fs vol.dev) fuel job).value = .ok job'
  failed : ok = false →
    (loop .fuel Job.more (Job.turn vol.fs vol.dev) fuel job).value = .error .err
  entries : job'.entries = job.entries ++
    reported (loop .fuel Job.more (Job.turn vol.fs vol.dev) fuel job).log

theorem iter_returned (hphase : c.phase = .returned ok)
    (h : iter (fun p : Call × ClusterBuf => p.1.step p.2) n (c, b) = some (c', b')) : c' = c := by
  cases n with
  | zero => exact (Prod.mk.inj (Option.some.inj h)).1.symm
  | succ n =>
    have hnone : c.step b = none := by rw [step, hphase]
    rw [iter_succ, hnone] at h
    cases h

theorem ReturnsAlone.unique {r r' : Outcome} (h : ReturnsAlone c b r) (h' : ReturnsAlone c b r') :
    r = r' := by
  obtain ⟨n, d, a, hn, hd⟩ := h
  obtain ⟨m, d', a', hm, hd'⟩ := h'
  wlog hle : n ≤ m generalizing n m d d' a a' r r'
  · exact (this m d' a' hm hd' n d a hn hd (by omega)).symm
  have hrest : iter (fun p : Call × ClusterBuf => p.1.step p.2) (m - n) (d, a) = some (d', a') := by
    rw [← Nat.add_sub_of_le hle, iter_add, hn] at hm
    exact hm
  obtain ⟨vol, phase, job⟩ := d
  cases phase with
  | fill | use => cases hd
  | returned ok =>
    obtain rfl := iter_returned rfl hrest
    exact Option.some.inj (hd.symm.trans hd')

theorem loops_of_turn_fails {e : Stop} (hmore : job.more = true)
    (hturn : (job.turn vol.fs vol.dev).value = .error e) (he : e = .err)
    (hentries : job'.entries = job.entries ++ reported (job.turn vol.fs vol.dev).log) :
    Loops vol job false job' 1 := by
  refine ⟨by rintro ⟨⟩, fun _ => ?_, ?_⟩
  · rw [loop_more hmore, Logged.value_bind_error hturn, he]
  · rw [loop_more hmore, Logged.log_bind_error hturn, hentries]

/-- Alone, a call does what its loop does. -/
theorem loops_of_iter
    (h : iter (fun p : Call × ClusterBuf => p.1.step p.2) n (⟨vol, .fill, job⟩, b) =
      some (c', b')) (hreturned : c'.phase = .returned ok) :
    ∃ fuel, Loops vol job ok c'.job fuel := by
  induction n using Nat.strong_induction_on generalizing job b with
  | _ n ih =>
    have hgeometry := mount_geometry vol.mounted
    rcases n with - | n
    · cases h
      cases hreturned
    cases hmore : job.more with
    | false =>
      rw [iter_succ, step_stop rfl hmore, Option.bind_some] at h
      obtain rfl := iter_returned rfl h
      cases hreturned
      refine ⟨1, fun _ => ?_, by rintro ⟨⟩, ?_⟩
      · rw [loop_stop hmore]
        rfl
      · rw [loop_stop hmore]
        simp [reported]
    | true =>
      rw [iter_succ, step_more rfl hmore, Option.bind_some] at h
      dsimp only at h
      cases hread : (vol.fs.readCluster vol.dev job.cluster).value with
      | error e =>
        have he := eq_err_of_finishes ExfatFs.finishes_readCluster hread
        rw [ExfatFs.fillCluster_fails hread b] at h
        obtain rfl := iter_returned rfl h
        cases hreturned
        obtain ⟨hturn, hlog⟩ := Job.turn_read_fails hread
        exact ⟨1, loops_of_turn_fails hmore hturn he (by rw [hlog, List.append_nil])⟩
      | ok buf =>
        obtain ⟨d, hd, hbytes⟩ := hgeometry.fillCluster_ok hread b
        rw [hd] at h
        simp only [if_true] at h
        rcases n with - | n
        · cases h
          cases hreturned
        have hjob := job.use_congr hbytes
        obtain ⟨hturn, hlog⟩ := Job.turn_of_read hread
        cases hnext : (vol.fs.nextClusterForEntry vol.dev job.chain job.cluster).value with
        | error e =>
          have he := eq_err_of_finishes ExfatFs.finishes_nextClusterForEntry hnext
          rw [iter_succ, step_use_error rfl (by simpa using hnext), Option.bind_some] at h
          obtain rfl := iter_returned rfl h
          cases hreturned
          rw [Logged.value_bind_error hnext] at hturn
          exact ⟨1, loops_of_turn_fails hmore hturn he (by rw [hlog, hjob, Job.entries_use])⟩
        | ok next =>
          rw [iter_succ, step_use_ok rfl (by simpa using hnext), Option.bind_some] at h
          obtain ⟨fuel, hfuel⟩ := ih n (by omega) h
          rw [Logged.value_bind_ok hnext] at hturn
          dsimp only at hfuel
          rw [hjob] at hfuel
          refine ⟨fuel + 1, fun hok => ?_, fun hok => ?_, ?_⟩
          · rw [loop_more hmore, Logged.value_bind_ok hturn]
            exact hfuel.done hok
          · rw [loop_more hmore, Logged.value_bind_ok hturn]
            exact hfuel.failed hok
          · rw [loop_more hmore, reported_bind_ok hturn, hlog, hfuel.entries]
            simp

end Call

namespace ExfatFs

variable {fs : ExfatFs} {dev : BlockDev} {entry dir : ExfatEntry} {n t : ℕ} {r : Filling}
  {l : Listing}

theorem readFile_loop_eq :
    loop .fuel Job.more (Job.turn fs dev) n (.readFile entry t r) =
      loop .fuel (unfilled t) (fs.fillTurn dev entry t) n r >>= fun r' =>
        pure (.readFile entry t r') := by
  apply loop_map (Job.readFile entry t)
  · intro r
    rfl
  · intro r
    rw [Job.turn, fillTurn, Logged.bind_assoc]
    refine Logged.bind_congr fun buf _ => ?_
    rw [Logged.bind_assoc]
    exact Logged.tellAll_nil_bind _

/-- `listTurn` with the entries reported so far. -/
def listingTurn (fs : ExfatFs) (dev : BlockDev) (dir : ExfatEntry) (l : Listing) : Io Listing := do
  let buf ← fs.readCluster dev l.cluster
  Logged.tellAll ((parseEntries (fs.dirEntries buf) 0).map Event.entry)
  let cluster ← fs.nextClusterForEntry dev dir l.cluster
  pure ⟨cluster, l.entries ++ parseEntries (fs.dirEntries buf) 0⟩

theorem listEntryDir_loop_eq :
    loop .fuel Job.more (Job.turn fs dev) n (.listEntryDir dir l) =
      loop .fuel (fun l : Listing => l.cluster != 0) (fs.listingTurn dev dir) n l >>= fun l' =>
        pure (.listEntryDir dir l') := by
  apply loop_map (Job.listEntryDir dir)
  · intro l
    rfl
  · intro l
    rw [Job.turn, listingTurn, Logged.bind_assoc]
    refine Logged.bind_congr fun buf _ => ?_
    rw [Logged.bind_assoc]
    refine Logged.bind_congr fun _ _ => ?_
    rw [Logged.bind_assoc]
    rfl

theorem listTurn_loop_eq (fs : ExfatFs) (dev : BlockDev) (dir : ExfatEntry) (l : Listing) :
    loop .fuel (· != 0) (fs.listTurn dev dir) n l.cluster =
      loop .fuel (fun l : Listing => l.cluster != 0) (fs.listingTurn dev dir) n l >>= fun l' =>
        pure l'.cluster := by
  apply loop_map Listing.cluster
  · intro l
    rfl
  · intro l
    rw [listTurn, listingTurn, Logged.bind_assoc]
    refine Logged.bind_congr fun buf _ => ?_
    rw [Logged.bind_assoc]
    refine Logged.bind_congr fun _ _ => ?_
    rw [Logged.bind_assoc]
    exact (Logged.bind_pure _).symm

end ExfatFs

namespace Call

variable {vol : Volume} {b : ClusterBuf}

/-- Alone, a call of `read_file` returns what the function returns. -/
theorem returnsAlone_readFile {w : ℕ} {start : UInt32} {dataLength : UInt64} {noFatChain : Bool}
    {buf out : List UInt8} {result : Option ℕ}
    (h : ReturnsAlone (readFile vol w start dataLength noFatChain buf) b (.read result out)) :
    ∃ fuel, (∀ n, result = some n → (vol.fs.readFileInto vol.dev w fuel start dataLength noFatChain
        buf).value = .ok (n, out)) ∧
      (result = none → (vol.fs.readFileInto vol.dev w fuel start dataLength noFatChain
        buf).value = .error .err) := by
  obtain ⟨steps, ⟨vol', phase, job⟩, b', hiter, hresult⟩ := h
  cases phase with
  | fill | use => cases hresult
  | returned ok =>
    obtain ⟨fuel, hdone, hfailed, -⟩ := loops_of_iter hiter rfl
    rw [ExfatFs.readFile_loop_eq] at hdone hfailed
    cases job with
    | listEntryDir dir l => cases hresult
    | readFile entry t r =>
      obtain ⟨hcount, rfl⟩ := Outcome.read.inj (Option.some.inj hresult)
      refine ⟨fuel, fun n hn => ?_, fun hnone => ?_⟩
      · cases ok with
        | false => cases hcount.trans hn
        | true =>
          obtain rfl : r.offset = n := Option.some.inj (hcount.trans hn)
          obtain ⟨r', hr', hjob⟩ := Logged.value_bind_eq_ok.mp (hdone rfl)
          obtain ⟨-, -, rfl⟩ := Job.readFile.inj (Except.ok.inj hjob)
          rw [ExfatFs.readFileInto, Logged.value_bind_ok hr']
          rfl
      · cases ok with
        | true => cases hcount.trans hnone
        | false =>
          rcases Logged.value_bind_eq_error.mp (hfailed rfl) with herror | ⟨_, -, ⟨⟩⟩
          rw [ExfatFs.readFileInto, Logged.value_bind_error herror]

/-- Alone, a call of `list_entry_dir` reports and returns what the function does. -/
theorem returnsAlone_listEntryDir {dir : ExfatEntry} {ok : Bool} {entries : List ExfatEntry}
    (h : ReturnsAlone (listEntryDir vol dir) b (.listed ok entries)) :
    ∃ fuel, reported (vol.fs.listEntryDir vol.dev fuel dir).log = entries ∧
      (vol.fs.listEntryDir vol.dev fuel dir).value = if ok then .ok () else .error .err := by
  obtain ⟨steps, ⟨vol', phase, job⟩, b', hiter, hresult⟩ := h
  cases phase with
  | fill | use => cases hresult
  | returned ok' =>
    obtain ⟨fuel, hdone, hfailed, hentries⟩ := loops_of_iter hiter rfl
    rw [ExfatFs.listEntryDir_loop_eq] at hdone hfailed hentries
    cases job with
    | readFile entry t r => cases hresult
    | listEntryDir dir' l =>
      obtain ⟨rfl, rfl⟩ := Outcome.listed.inj (Option.some.inj hresult)
      refine ⟨fuel, ?_⟩
      have hloop := ExfatFs.listTurn_loop_eq (n := fuel) vol.fs vol.dev dir ⟨dir.firstCluster, []⟩
      dsimp only at hloop
      unfold ExfatFs.listEntryDir
      rw [hloop]
      rw [Logged.log_bind_pure] at hentries
      constructor
      · rw [Logged.log_bind_pure, Logged.log_bind_pure]
        exact hentries.symm
      · cases ok' with
        | true =>
          obtain ⟨l', hl', -⟩ := Logged.value_bind_eq_ok.mp (hdone rfl)
          rw [Logged.bind_assoc, Logged.value_bind_ok hl']
          rfl
        | false =>
          rcases Logged.value_bind_eq_error.mp (hfailed rfl) with herror | ⟨_, -, ⟨⟩⟩
          rw [Logged.bind_assoc, Logged.value_bind_error herror]
          rfl

end Call

/-- A call that does not intrude leaves to the others what they have read. -/
theorem NotIntruding.leavesOthers {w : Interleaved ι Call ClusterBuf} {i : ι}
    (h : NotIntruding w i) : LeavesOthers Call.step Call.Agree w i := by
  intro c b hstep j hj huse
  cases hfills : (w.locals i).fills with
  | true => exact absurd huse (h hfills j hj)
  | false =>
    rw [Call.shared_of_step hstep hfills]
    exact fun _ _ => rfl

/-- Calls that never fill the buffer between the `read_cluster` of another call and its use of the
buffer return what they return alone. -/
theorem concurrent_calls_isolated [DecidableEq ι] (w : Interleaved ι Call ClusterBuf) (acts : List ι)
    (hok : Along (interleave Call.step) NotIntruding w acts) : Isolated w acts := by
  intro w' hrun i r
  have hleaves := hok.imp (P := fun _ => True) (fun _ _ _ _ _ _ => trivial)
    (fun _ _ _ h => NotIntruding.leavesOthers h) trivial
  obtain ⟨b, hb, -⟩ := hleaves.alone
    (fun _ _ _ _ h h' huse k hk => (h huse k hk).trans (h' huse k hk))
    (fun _ _ _ _ _ h hstep => h.step hstep) hrun (i := i)
    ⟨w.shared, iter_zero, fun _ _ _ => rfl⟩
  rw [Nat.zero_add] at hb
  constructor
  · intro hresult
    exact ⟨w'.locals i, b, hb, hresult⟩
  · rintro ⟨c, b', hc, hresult⟩
    obtain ⟨rfl, -⟩ := Prod.mk.inj (Option.some.inj (hb.symm.trans hc))
    exact hresult

/-! ### Two files -/

def twoClustersVolume : Volume := ⟨twoClustersFs, twoClusters 13, mount_twoClusters 13⟩

def twoReads : Interleaved Bool Call ClusterBuf where
  locals i := .readFile twoClustersVolume 32 (if i then 3 else 2) 1 true [0xAA]
  shared _ := 0

/-- The second call fills the buffer before the first one copies from it: the first returns a byte
of the file of the second. -/
theorem byte_of_other_file_is_returned :
    (∃ w, run (interleave Call.step) twoReads [false, true, false, false] = some w ∧
      (w.locals false).result = some (.read (some 1) [0])) ∧
    (twoReads.locals false).ReturnsAlone twoReads.shared (.read (some 1) [0x83]) ∧
    ¬ Isolated twoReads [false, true, false, false] := by
  have htest : (run (interleave Call.step) twoReads [false, true, false, false]).any
      (fun w => decide ((w.locals false).result = some (.read (some 1) [0]))) = true := by
    decide +kernel
  have halone : (iter (fun p : Call × ClusterBuf => p.1.step p.2) 3
      (twoReads.locals false, twoReads.shared)).any
      (fun p => decide (p.1.result = some (.read (some 1) [0x83]))) = true := by
    decide +kernel
  obtain ⟨w, hrun, hfacts⟩ := (Option.any_eq_true _ _).mp htest
  have hresult := of_decide_eq_true hfacts
  obtain ⟨⟨c, b⟩, hiter, hfacts⟩ := (Option.any_eq_true _ _).mp halone
  have hreturns : (twoReads.locals false).ReturnsAlone twoReads.shared (.read (some 1) [0x83]) :=
    ⟨3, c, b, hiter, of_decide_eq_true hfacts⟩
  refine ⟨⟨w, hrun, hresult⟩, hreturns, ?_⟩
  intro hisolated
  exact absurd (hreturns.unique ⟨_, (hisolated w hrun false _).mp hresult⟩) (by decide)

theorem reads_in_turn_are_isolated :
    Along (interleave Call.step) NotIntruding twoReads [false, false, true, true, false, true] ∧
      Isolated twoReads [false, false, true, true, false, true] := by
  have hok : Along (interleave Call.step) NotIntruding twoReads
      [false, false, true, true, false, true] := by
    decide +kernel
  exact ⟨hok, concurrent_calls_isolated twoReads _ hok⟩

end OpenIon.Fs.Exfat
