import OpenIon.Arch.Riscv.Sv39.Table
import OpenIon.Lib.TableTree

/-! # Formats of page tables

The formats differ in their indices and in the layout of an entry. Whatever these are,
mapping walks down the tables, allocates those that are missing and stores a leaf. The
tables stay a tree, since new tables are frames that no other table uses, and each
operation is described by what it does to the lookup of all paths.
-/
namespace OpenIon.Arch.Riscv.Sv39

/-- The frames to come are distinct pages that are not in use. -/
structure Supply (known : Set ℕ) (m : Memory) : Prop where
  page : ∀ n f, m.requests ≤ n → m.frames n = some f → f % 4096 = 0 ∧ f < 2 ^ 56
  fresh : ∀ n f, m.requests ≤ n → m.frames n = some f → f ∉ known
  distinct : ∀ n k f, m.requests ≤ n → m.requests ≤ k → m.frames n = some f →
    m.frames k = some f → n = k

structure Later (m m' : Memory) : Prop where
  frames : m'.frames = m.frames
  requests : m.requests ≤ m'.requests

/-- A request for a frame between the two memories was refused. -/
def Refused (m m' : Memory) : Prop :=
  ∃ n, m.requests ≤ n ∧ n < m'.requests ∧ m.frames n = none

/-- The next `n` requests for a frame are granted. -/
def Granted (m : Memory) (n : ℕ) : Prop := ∀ k < n, (m.frames (m.requests + k)).isSome = true

instance Granted.instDecidable (m : Memory) (n : ℕ) : Decidable (Granted m n) :=
  inferInstanceAs (Decidable (∀ k < n, (m.frames (m.requests + k)).isSome = true))

variable {m m' m'' : Memory} {known : Set ℕ} {a b : ℕ}

theorem Supply.later (h : Supply known m) (hlater : Later m m') : Supply known m' := by
  constructor
  · intro n f hn hf
    exact h.page n f (hlater.requests.trans hn) (hlater.frames ▸ hf)
  · intro n f hn hf
    exact h.fresh n f (hlater.requests.trans hn) (hlater.frames ▸ hf)
  · intro n k f hn hk hnf hkf
    exact h.distinct n k f (hlater.requests.trans hn) (hlater.requests.trans hk)
      (hlater.frames ▸ hnf) (hlater.frames ▸ hkf)

theorem Supply.take {f : ℕ} (h : Supply known m) (hf : m.frames m.requests = some f)
    (hlater : Later m m') (hrequests : m'.requests = m.requests + 1) :
    Supply (insert f known) m' := by
  have htail := h.later hlater
  refine ⟨htail.page, ?_, htail.distinct⟩
  rintro n g hn hg (rfl | hknown)
  · rw [hlater.frames] at hg
    have heq := h.distinct n m.requests g (by omega) le_rfl hg hf
    omega
  · exact htail.fresh n g hn hg hknown

theorem Later.refl (m : Memory) : Later m m := ⟨rfl, le_rfl⟩

theorem Later.trans (h : Later m m') (h' : Later m' m'') : Later m m'' :=
  ⟨h'.frames.trans h.frames, h.requests.trans h'.requests⟩

theorem Later.refused (h : Later m m') (hr : Refused m' m'') : Refused m m'' := by
  rcases hr with ⟨n, hn, hlt, hnone⟩
  exact ⟨n, h.requests.trans hn, hlt, h.frames ▸ hnone⟩

theorem Refused.later (h : Refused m m') (hlater : Later m' m'') : Refused m m'' := by
  rcases h with ⟨n, hn, hlt, hnone⟩
  exact ⟨n, hn, hlt.trans_le hlater.requests, hnone⟩

theorem Granted.of_le (h : Granted m b) (hle : a ≤ b) : Granted m a :=
  fun k hk => h k (hk.trans_le hle)

theorem granted_add (hframes : m'.frames = m.frames) (hrequests : m'.requests = m.requests + a) :
    Granted m (a + b) ↔ Granted m a ∧ Granted m' b := by
  constructor
  · intro h
    refine ⟨h.of_le (Nat.le_add_right a b), fun k hk => ?_⟩
    rw [hframes, hrequests, Nat.add_assoc]
    exact h (a + k) (by omega)
  · rintro ⟨hfirst, hrest⟩ k hk
    by_cases hka : k < a
    · exact hfirst k hka
    · have hlast := hrest (k - a) (by omega)
      rw [hframes, hrequests, Nat.add_assoc, Nat.add_sub_cancel' (by omega)] at hlast
      exact hlast

end OpenIon.Arch.Riscv.Sv39

namespace OpenIon.Arch.Riscv
open Mm Lib Sv39

/-- A format of page tables in memory, with the entry that links to a new table. -/
structure Paging (I : Type) extends Tables Memory I ℕ where
  levels : ℕ
  tableEntry : ℕ → ℕ
  /-- The address is of a table that an entry can link to. -/
  Fits : ℕ → Prop
  isTable_of_fits : ∀ f, Fits f → IsTable f
  valid_tableEntry : ∀ f, valid (tableEntry f) = true
  leaf_tableEntry : ∀ f, leaf (tableEntry f) = false
  child_tableEntry : ∀ f, Fits f → child (tableEntry f) = f
  get_alloc : ∀ m t i, get m.alloc.2 t i = get m t i
  frames_set : ∀ m t i e, (set m t i e).frames = m.frames
  requests_set : ∀ m t i e, (set m t i e).requests = m.requests
  frames_clear : ∀ m t, (clear m t).frames = m.frames
  requests_clear : ∀ m t, (clear m t).requests = m.requests

namespace Paging

variable {I : Type} (F : Paging I)

/-- The loop of `map_page` over the upper levels, which allocates the tables that are missing. -/
def walkAlloc : List I → ℕ → Memory → Except MmError ℕ × Memory
  | [], table, m => (.ok table, m)
  | idx :: path, table, m =>
    if !F.valid (F.get m table idx) then
      match m.alloc with
      | (none, m) => (.error .outOfMemory, m)
      | (some page, m) => walkAlloc path page (F.set (F.clear m page) table idx (F.tableEntry page))
    else if F.leaf (F.get m table idx) then (.error .alreadyMapped, m)
    else walkAlloc path (F.child (F.get m table idx)) m

/-- A leaf is stored in an entry that is not in use, below the given upper indices. -/
def mapAt (root : ℕ) (m : Memory) (upper : List I) (idx : I) (entry : ℕ) :
    Except MmError Unit × Memory :=
  match F.walkAlloc upper root m with
  | (.error err, m) => (.error err, m)
  | (.ok table, m) =>
    if F.valid (F.get m table idx) then (.error .alreadyMapped, m)
    else (.ok (), F.set m table idx entry)

/-- The tables of the root form a tree, and the allocator hands out other pages, which entries can
link to. -/
def WellFormed (root : ℕ) (m : Memory) : Prop :=
  ∃ known, F.Tree F.levels m root known ∧ Supply known m ∧
    ∀ n f, m.requests ≤ n → m.frames n = some f → F.Fits f

def SameLookup (root : ℕ) (m m' : Memory) : Prop :=
  ∀ p, p.length = F.levels → F.lookup m' root p = F.lookup m root p

def Unmapped (root : ℕ) (m : Memory) (p : List I) : Prop :=
  ∀ q, p <+: q → q.length = F.levels → F.lookup m root q = none

def Covered (root : ℕ) (m : Memory) (p : List I) : Prop :=
  ∀ q, p <+: q → q.length = F.levels → (F.lookup m root q).isSome = true

/-- All tables that were missing on the path have been linked, and no others. -/
structure Allocated [DecidableEq I] (root : ℕ) (m m' : Memory) (path : List I) : Prop where
  frames : m'.frames = m.frames
  requests : m'.requests = m.requests + (F.missing m root [path]).card
  granted : Granted m (F.missing m root [path]).card
  follow : ∀ p, p.length < F.levels →
    (F.follow m' root p = none ↔ F.follow m root p = none ∧ ¬ p <+: path)

/-- What the walk of `map_page` finds: the table of the last index, a leaf on the way, or no frame
for a table that is missing. -/
def Walked [DecidableEq I] (root : ℕ) (m m' : Memory) (p : List I) : Except MmError ℕ → Prop
  | .ok table => F.follow m' root p = some table ∧ F.Allocated root m m' p
  | .error err => (err = .alreadyMapped ∧ F.Covered root m p) ∨
      (err = .outOfMemory ∧ Refused m m' ∧ F.Unmapped root m p ∧
        ¬ Granted m (F.missing m root [p]).card)

/-- The outcome of an attempt to map everything below a path. -/
def Mapped [DecidableEq I] (root : ℕ) (m m' : Memory) (p : List I) (entry : ℕ) :
    Except MmError Unit → Prop
  | .ok _ => F.Unmapped root m p ∧ ∀ q, q.length = F.levels → F.lookup m' root q =
      if p <+: q then some (F.levels - p.length, entry) else F.lookup m root q
  | .error err => F.SameLookup root m m' ∧
      ((err = .alreadyMapped ∧ (p.length = F.levels → F.Covered root m p)) ∨
        (err = .outOfMemory ∧ Refused m m' ∧ F.Unmapped root m p))

variable {F} {root t : ℕ} {m m' m'' : Memory} {pre path upper : List I} {idx : I}

theorem SameLookup.trans (h : F.SameLookup root m m') (h' : F.SameLookup root m' m'') :
    F.SameLookup root m m'' := by
  intro p hp
  rw [h' p hp, h p hp]

theorem later_set (m : Memory) (t : ℕ) (idx : I) (e : ℕ) : Later m (F.set m t idx e) :=
  ⟨F.frames_set m t idx e, (F.requests_set m t idx e).ge⟩

theorem frames_link (m : Memory) (t : ℕ) (idx : I) (page e : ℕ) :
    (F.set (F.clear m.alloc.2 page) t idx e).frames = m.frames ∧
      (F.set (F.clear m.alloc.2 page) t idx e).requests = m.requests + 1 := by
  rw [F.frames_set, F.requests_set, F.frames_clear, F.requests_clear]
  exact ⟨rfl, rfl⟩

theorem later_link (m : Memory) (t : ℕ) (idx : I) (page e : ℕ) :
    Later m (F.set (F.clear m.alloc.2 page) t idx e) := by
  rcases F.frames_link m t idx page e with ⟨hframes, hrequests⟩
  exact ⟨hframes, by omega⟩

/-- A new table is linked to an entry that was not in use. -/
theorem WellFormed.link {page : ℕ} (h : F.WellFormed root m) (ht : F.follow m root pre = some t)
    (hlen : pre.length + 1 < F.levels) (hfree : F.valid (F.get m t idx) = false)
    (hpage : m.frames m.requests = some page)
    (hm' : m' = F.set (F.clear m.alloc.2 page) t idx (F.tableEntry page)) :
    F.WellFormed root m' ∧ F.follow m' root (pre ++ [idx]) = some page ∧
      (∀ p, p.length < F.levels →
        (F.follow m' root p = none ↔ F.follow m root p = none ∧ p ≠ pre ++ [idx])) ∧
      F.SameLookup root m m' := by
  rcases h with ⟨known, htree, hsupply, hfits⟩
  have hlt : pre.length < F.levels := by omega
  rcases htree.table pre t hlt ht with ⟨htable, hknown⟩
  have hfit := hfits _ page le_rfl hpage
  have hfresh := hsupply.fresh _ page le_rfl hpage
  have hptable := F.isTable_of_fits page hfit
  have hne : t ≠ page := by
    rintro rfl
    exact hfresh hknown
  have hlater : Later m m' := hm' ▸ F.later_link m t idx page _
  have hrequests : m'.requests = m.requests + 1 := hm' ▸ (F.frames_link m t idx page _).2
  have hdiff : F.DiffersAt known t idx m m' := by
    intro s hs hstable j hj
    have hold := Tables.differsAt_clear_set (m := m.alloc.2) (e := F.tableEntry page) htable hptable
      hfresh s hs hstable j hj
    rw [hm', hold, F.get_alloc]
  have hentry : F.get m' t idx = F.tableEntry page := by
    rw [hm', F.get_set_self]
  have hclear : ∀ j, F.get m' page j = F.empty := by
    intro j
    rw [hm', F.get_set_of_ne _ t idx _ page j htable hptable fun heq => absurd heq.symm hne,
      F.get_clear_self]
  have hlinks : F.links (F.tableEntry page) = true := by
    simp [Tables.links, F.valid_tableEntry, F.leaf_tableEntry]
  rcases htree.link ht hlt hdiff hlen (by rw [hentry, hlinks])
    (by rw [hentry, F.child_tableEntry page hfit]) hfree hptable hfresh hclear with
    ⟨htree', hfollow, hothers, hlookup⟩
  refine ⟨⟨insert page known, htree', hsupply.take hpage hlater hrequests, ?_⟩, hfollow, hothers,
    hlookup⟩
  intro n f hn hf
  exact hfits n f (hlater.requests.trans hn) (hlater.frames ▸ hf)

/-- A link is followed to the table it points to. -/
theorem follow_snoc (ht : F.follow m root pre = some t) (hvalid : F.valid (F.get m t idx) = true)
    (hleaf : F.leaf (F.get m t idx) = false) :
    F.follow m root (pre ++ [idx]) = some (F.child (F.get m t idx)) := by
  have hlinks : F.links (F.get m t idx) = true := by
    simp [Tables.links, hvalid, hleaf]
  rw [Tables.follow_append, ht]
  simp [Tables.follow_cons, hlinks]

/-- A refused request changes no table. -/
theorem WellFormed.request (h : F.WellFormed root m) :
    F.WellFormed root m.alloc.2 ∧ F.SameLookup root m m.alloc.2 := by
  rcases h with ⟨known, htree, hsupply, hfits⟩
  constructor
  · refine ⟨known, htree.congr fun _ _ => F.get_alloc _ _ _, hsupply.later ⟨rfl, Nat.le_succ _⟩, ?_⟩
    intro n f hn hf
    exact hfits n f (Nat.le_of_succ_le hn) hf
  · intro p _
    exact Tables.lookup_congr fun _ _ _ _ _ _ => F.get_alloc _ _ _

section Frames

variable [DecidableEq I]

theorem allocated_of_follow (h : F.follow m root path = some t) : F.Allocated root m m path := by
  have hnone := Tables.missing_of_follow h
  refine ⟨rfl, by rw [hnone]; rfl, by rw [hnone]; intro k hk; simp at hk, fun p _ => ?_⟩
  refine ⟨fun hp => ⟨hp, ?_⟩, And.left⟩
  rintro ⟨r, rfl⟩
  simp [Tables.follow_append, hp] at h

variable (hlen : path.length < F.levels) (hbelow : pre ++ [idx] <+: path)
  (hnone : F.follow m root (pre ++ [idx]) = none)
  (hlink : ∀ p, p.length < F.levels →
    (F.follow m' root p = none ↔ F.follow m root p = none ∧ p ≠ pre ++ [idx]))
include hlen hbelow hnone hlink

/-- The tables that are missing when a new one has been linked. -/
theorem missing_link :
    (F.missing m root [path]).card = 1 + (F.missing m' root [path]).card := by
  have hinsert : F.missing m root [path] = insert (pre ++ [idx]) (F.missing m' root [path]) := by
    ext p
    rw [Finset.mem_insert, Tables.mem_missing_singleton, Tables.mem_missing_singleton]
    constructor
    · rintro ⟨hp, hfollow⟩
      by_cases heq : p = pre ++ [idx]
      · exact .inl heq
      · exact .inr ⟨hp, (hlink p (hp.length_le.trans_lt hlen)).mpr ⟨hfollow, heq⟩⟩
    · rintro (rfl | ⟨hp, hfollow⟩)
      · exact ⟨hbelow, hnone⟩
      · exact ⟨hp, ((hlink p (hp.length_le.trans_lt hlen)).mp hfollow).1⟩
  rw [hinsert, Finset.card_insert_of_notMem, Nat.add_comm]
  intro hmem
  have hfollow := (Tables.mem_missing_singleton.mp hmem).2
  exact ((hlink _ (hbelow.length_le.trans_lt hlen)).mp hfollow).2 rfl

/-- A table that is linked first is one of those that a longer path needs. -/
theorem missing_link_spec {page : ℕ} (hframe : m.frames m.requests = some page)
    (hframes : m'.frames = m.frames) (hrequests : m'.requests = m.requests + 1) (m'' : Memory) :
    (Granted m (F.missing m root [path]).card ↔ Granted m' (F.missing m' root [path]).card) ∧
      (F.Allocated root m' m'' path → F.Allocated root m m'' path) := by
  have hcard := missing_link hlen hbelow hnone hlink
  have hone : Granted m 1 := by
    intro k hk
    obtain rfl : k = 0 := by omega
    simp [hframe]
  have hgranted : Granted m (F.missing m root [path]).card ↔
      Granted m' (F.missing m' root [path]).card := by
    rw [hcard, granted_add hframes hrequests, and_iff_right hone]
  refine ⟨hgranted, fun hall => ⟨hall.frames.trans hframes, ?_, hgranted.mpr hall.granted, ?_⟩⟩
  · rw [hall.requests, hrequests, hcard, Nat.add_assoc]
  · intro p hp
    rw [hall.follow p hp, hlink p hp, and_assoc, and_congr_right_iff]
    refine fun _ => ⟨And.right, fun hp => ⟨?_, hp⟩⟩
    rintro rfl
    exact hp hbelow

end Frames

theorem WellFormed.walkAlloc [DecidableEq I] (path : List I) (h : F.WellFormed root m)
    (ht : F.follow m root pre = some t) (hlen : pre.length + path.length < F.levels) :
    ∃ r m', F.walkAlloc path t m = (r, m') ∧ F.WellFormed root m' ∧ F.SameLookup root m m' ∧
      Later m m' ∧ F.Walked root m m' (pre ++ path) r := by
  induction path generalizing pre t m with
  | nil =>
    rw [List.append_nil]
    exact ⟨_, _, rfl, h, fun _ _ => rfl, .refl m, ht, allocated_of_follow ht⟩
  | cons idx path ih =>
    have hlen' : (pre ++ [idx]).length + path.length < F.levels := by
      simp only [List.length_cons] at hlen
      simp only [List.length_append, List.length_singleton]
      omega
    have hpath : pre ++ idx :: path = pre ++ [idx] ++ path := by simp
    have hlookup : ∀ p, pre ++ [idx] ++ path <+: p →
        ∃ rest, F.lookup m root p = F.lookup m t (idx :: rest) := by
      rintro p ⟨r, rfl⟩
      refine ⟨path ++ r, ?_⟩
      rw [List.append_assoc, List.append_assoc]
      exact Tables.lookup_append (by simp) ht
    rw [hpath]
    cases hvalid : F.valid (F.get m t idx) with
    | false =>
      have hnone : F.Unmapped root m (pre ++ [idx] ++ path) := by
        intro p hp _
        rcases hlookup p hp with ⟨rest, hrest⟩
        simp [hrest, Tables.lookup, hvalid]
      have hmissing : F.follow m root (pre ++ [idx]) = none := by
        rw [Tables.follow_append, ht]
        simp [Tables.follow_cons, Tables.links, hvalid]
      cases hframe : m.frames m.requests with
      | none =>
        have hrefused : Refused m m.alloc.2 := ⟨m.requests, le_rfl, Nat.lt_succ_self _, hframe⟩
        refine ⟨.error .outOfMemory, m.alloc.2, ?_, h.request.1, h.request.2, ⟨rfl, Nat.le_succ _⟩,
          .inr ⟨rfl, hrefused, hnone, fun hgranted => ?_⟩⟩
        · simp [Paging.walkAlloc, hvalid, Memory.alloc, hframe]
        · have hmem : pre ++ [idx] ∈ F.missing m root [pre ++ [idx] ++ path] :=
            Tables.mem_missing_singleton.mpr ⟨List.prefix_append _ _, hmissing⟩
          have hfirst := hgranted 0 (Finset.card_pos.mpr ⟨_, hmem⟩)
          simp [hframe] at hfirst
      | some page =>
        have hlink : pre.length + 1 < F.levels := by
          simp only [List.length_cons] at hlen
          omega
        rcases h.link ht hlink hvalid hframe rfl with ⟨hwf, hfollow, hothers, hsame⟩
        rcases ih hwf hfollow hlen' with ⟨r, m', hwalk, hwf', hsame', hlater', hr⟩
        rcases F.frames_link m t idx page (F.tableEntry page) with ⟨hframes, hrequests⟩
        rcases missing_link_spec (by rwa [List.length_append]) (List.prefix_append _ _) hmissing
          hothers hframe hframes hrequests m' with ⟨hgranted, hallocated⟩
        have hlater := F.later_link m t idx page (F.tableEntry page)
        refine ⟨r, m', ?_, hwf', hsame.trans hsame', hlater.trans hlater', ?_⟩
        · rw [Paging.walkAlloc]
          simpa [hvalid, Memory.alloc, hframe] using hwalk
        · cases r with
          | ok table => exact ⟨hr.1, hallocated hr.2⟩
          | error err =>
            rcases hr with ⟨rfl, hsome⟩ | ⟨rfl, hrefused, -, hfail⟩
            · refine .inl ⟨rfl, ?_⟩
              intro p hp hlevels
              rw [← hsame p hlevels]
              exact hsome p hp hlevels
            · exact .inr ⟨rfl, hlater.refused hrefused, hnone, mt hgranted.mp hfail⟩
    | true =>
      cases hleaf : F.leaf (F.get m t idx) with
      | true =>
        refine ⟨.error .alreadyMapped, m, ?_, h, fun _ _ => rfl, .refl m, .inl ⟨rfl, ?_⟩⟩
        · simp [Paging.walkAlloc, hvalid, hleaf]
        · intro p hp _
          rcases hlookup p hp with ⟨rest, hrest⟩
          simp [hrest, Tables.lookup, hvalid, hleaf]
      | false =>
        rcases ih h (follow_snoc ht hvalid hleaf) hlen' with ⟨r, m', hwalk, hrest⟩
        refine ⟨r, m', ?_, hrest⟩
        rw [Paging.walkAlloc]
        simpa [hvalid, hleaf] using hwalk

/-- Writing an entry that is not a link decides the lookup of all paths through it. -/
theorem WellFormed.store [DecidableEq I] (idx : I) {e : ℕ} (h : F.WellFormed root m)
    (ht : F.follow m root pre = some t) (hlt : pre.length < F.levels)
    (hlinks : F.links e = false ∨ pre.length + 1 = F.levels) :
    F.WellFormed root (F.set m t idx e) ∧ ∀ q, q.length = F.levels →
      F.lookup (F.set m t idx e) root q =
        if pre ++ [idx] <+: q then
          (if F.valid e then some (q.length - (pre.length + 1), e) else none)
        else F.lookup m root q := by
  rcases h with ⟨known, htree, hsupply, hfits⟩
  have hlater := F.later_set m t idx e
  have hdiff : F.DiffersAt known t idx m (F.set m t idx e) :=
    Tables.differsAt_set (htree.table pre t hlt ht).1
  have hentry : F.get (F.set m t idx e) t idx = e := F.get_set_self _ _ _ _
  constructor
  · refine ⟨known, htree.store ht hlt hdiff (by rwa [hentry]), hsupply.later hlater, ?_⟩
    intro n f hn hf
    exact hfits n f (hlater.requests.trans hn) (hlater.frames ▸ hf)
  · intro q hq
    by_cases hbelow : pre ++ [idx] <+: q
    · rw [if_pos hbelow]
      rcases hbelow with ⟨r, rfl⟩
      have hlength : (pre ++ [idx] ++ r).length - (pre.length + 1) = r.length := by
        simp only [List.length_append, List.length_singleton]
        omega
      rw [htree.lookup_through ht hlt hdiff, Tables.lookup, hentry, hlength]
      cases hvalid : F.valid e with
      | false => rfl
      | true =>
        have hend : (F.leaf e || r.isEmpty) = true := by
          rcases hlinks with hnone | hlast
          · have hleaf : F.leaf e = true := by
              simpa [Tables.links, hvalid] using hnone
            simp [hleaf]
          · have hr : r.length = 0 := by
              simp only [List.length_append, List.length_singleton] at hq
              omega
            simp [List.length_eq_zero_iff.mp hr]
        simp [hend]
    · rw [if_neg hbelow]
      exact htree.lookup_of_not_below ht hlt hdiff hq.le hbelow

theorem WellFormed.mapAt [DecidableEq I] (upper : List I) (idx : I) {entry : ℕ}
    (h : F.WellFormed root m) (hlen : upper.length < F.levels) (hvalid : F.valid entry = true)
    (hleaf : F.leaf entry = true ∨ upper.length + 1 = F.levels) :
    ∃ r m', F.mapAt root m upper idx entry = (r, m') ∧ F.WellFormed root m' ∧ Later m m' ∧
      F.Mapped root m m' (upper ++ [idx]) entry r := by
  rcases h.walkAlloc upper Tables.follow_nil (by simpa using hlen) with
    ⟨r, m₁, hwalk, hwf, hsame, hlater, hr⟩
  have hbelow : [] ++ upper <+: upper ++ [idx] := List.prefix_append _ _
  cases r with
  | error err =>
    refine ⟨.error err, m₁, by simp [Paging.mapAt, hwalk], hwf, hlater, hsame, ?_⟩
    rcases hr with ⟨rfl, hcovered⟩ | ⟨rfl, hrefused, hunmapped, -⟩
    · exact .inl ⟨rfl, fun _ q hq hlevels => hcovered q (hbelow.trans hq) hlevels⟩
    · exact .inr ⟨rfl, hrefused, fun q hq hlevels => hunmapped q (hbelow.trans hq) hlevels⟩
  | ok table =>
    have hfollow : F.follow m₁ root upper = some table := hr.1
    have hlookup : ∀ r, F.lookup m₁ root (upper ++ [idx] ++ r) = F.lookup m₁ table (idx :: r) := by
      intro r
      rw [List.append_assoc]
      exact Tables.lookup_append (by simp) hfollow
    cases hentry : F.valid (F.get m₁ table idx) with
    | true =>
      refine ⟨.error .alreadyMapped, m₁, by simp [Paging.mapAt, hwalk, hentry], hwf, hlater, hsame, ?_⟩
      refine .inl ⟨rfl, ?_⟩
      rintro hfull q ⟨r, rfl⟩ hlevels
      have hr : r = [] := by
        rw [List.length_append, hfull] at hlevels
        exact List.length_eq_zero_iff.mp (by omega)
      rw [← hsame _ hlevels, hlookup, hr]
      simp [Tables.lookup, hentry]
    | false =>
      have hlinks : F.links entry = false ∨ upper.length + 1 = F.levels :=
        hleaf.imp_left fun h => by simp [Tables.links, h]
      rcases hwf.store idx hfollow hlen hlinks with ⟨hwf', hstore⟩
      refine ⟨.ok (), F.set m₁ table idx entry, ?_, hwf', hlater.trans (F.later_set _ _ _ _), ?_, ?_⟩
      · simp [Paging.mapAt, hwalk, hentry]
      · rintro q ⟨r, rfl⟩ hlevels
        rw [← hsame _ hlevels, hlookup]
        simp [Tables.lookup, hentry]
      · intro q hlevels
        rw [hstore q hlevels, hlevels, hvalid, if_pos rfl, hsame q hlevels]
        simp

/-- Mapping takes no address away. -/
theorem Mapped.keeps [DecidableEq I] {p q : List I} {entry : ℕ} {r : Except MmError Unit}
    (h : F.Mapped root m m' p entry r) (hq : q.length = F.levels)
    (hsome : (F.lookup m root q).isSome = true) : (F.lookup m' root q).isSome = true := by
  cases r with
  | ok _ =>
    rw [h.2 q hq]
    split
    · rfl
    · exact hsome
  | error err => rwa [h.1 q hq]

theorem Mapped.covered [DecidableEq I] {p : List I} {entry : ℕ}
    (h : F.Mapped root m m' p entry (.ok ())) : F.Covered root m' p := by
  intro q hbelow hq
  rw [h.2 q hq, if_pos hbelow]
  rfl

/-- A single page is mapped after an attempt, unless a frame for a table was refused. -/
theorem Mapped.outcome [DecidableEq I] {p : List I} {entry : ℕ} {r : Except MmError Unit}
    (h : F.Mapped root m m' p entry r) (hp : p.length = F.levels) :
    ((r = .ok () ∨ r = .error .alreadyMapped) ∧ F.Covered root m' p) ∨
      (r = .error .outOfMemory ∧ Refused m m') := by
  cases r with
  | ok _ => exact .inl ⟨.inl rfl, h.covered⟩
  | error err =>
    rcases h with ⟨hsame, ⟨rfl, hcovered⟩ | ⟨rfl, hrefused, -⟩⟩
    · refine .inl ⟨.inr rfl, ?_⟩
      intro q hbelow hq
      rw [hsame q hq]
      exact hcovered hp q hbelow hq
    · exact .inr ⟨rfl, hrefused⟩

theorem later_walkAlloc (path : List I) (t : ℕ) (m : Memory) :
    Later m (F.walkAlloc path t m).2 := by
  induction path generalizing t m with
  | nil => exact .refl m
  | cons idx path ih =>
    rw [Paging.walkAlloc]
    split
    · cases hframe : m.frames m.requests with
      | none =>
        simp only [Memory.alloc, hframe]
        exact ⟨rfl, Nat.le_succ _⟩
      | some page =>
        simp only [Memory.alloc, hframe]
        exact (F.later_link m t idx page _).trans (ih _ _)
    · split
      · exact .refl m
      · exact ih _ _

/-- Mapping asks for frames and gives none back, whatever the tables are. -/
theorem later_mapAt (root : ℕ) (m : Memory) (upper : List I) (idx : I) (entry : ℕ) :
    Later m (F.mapAt root m upper idx entry).2 := by
  have hwalk := F.later_walkAlloc upper root m
  rw [Paging.mapAt]
  split
  next hr => rwa [hr] at hwalk
  next hr =>
    rw [hr] at hwalk
    split
    · exact hwalk
    · exact hwalk.trans (F.later_set _ _ _ _)

theorem wellFormed_of_empty (hroot : F.IsTable root) (hempty : ∀ idx, F.get m root idx = F.empty)
    (hframes : Supply {root} m) (hfits : ∀ n f, m.requests ≤ n → m.frames n = some f → F.Fits f) :
    F.WellFormed root m := by
  have hfollow : ∀ p t, F.follow m root p = some t → p = [] ∧ t = root := by
    intro p t ht
    cases p with
    | nil => exact ⟨rfl, (Option.some.inj ht).symm⟩
    | cons i p => simp [Tables.follow_cons, hempty i, Tables.links, F.valid_empty] at ht
  refine ⟨{root}, ⟨?_, ?_⟩, hframes, hfits⟩
  · intro p t _ ht
    rw [(hfollow p t ht).2]
    exact ⟨hroot, rfl⟩
  · intro p q t _ _ hp hq
    rw [(hfollow p t hp).1, (hfollow q t hq).1]

end Paging

end OpenIon.Arch.Riscv
