import OpenIon.Arch.Riscv.Paging

/-! # The frames that mapping takes

A page can be mapped if it is not mapped yet and the allocator has frames for the tables that are
missing on the way to its entry. Each of them is linked by the walk, so a later page finds those of
the pages before it.
-/
namespace OpenIon.Arch.Riscv.Paging
open Mm Lib Sv39

variable {I : Type} [DecidableEq I]

variable {F : Paging I} {root t : ℕ} {m m' m'' : Memory} {pre path upper : List I} {idx : I}

/-- A leaf that is stored in a last table leaves the ways to all tables as they are. -/
theorem WellFormed.mapAt_allocated {entry : ℕ} (h : F.WellFormed root m)
    (hfull : upper.length + 1 = F.levels)
    (hok : F.mapAt root m upper idx entry = (.ok (), m')) : F.Allocated root m m' upper := by
  rcases h.walkAlloc upper Tables.follow_nil (by simpa using by omega) with
    ⟨r, m₁, hwalk, ⟨known, htree, -, -⟩, -, -, hr⟩
  rw [Paging.mapAt, hwalk] at hok
  cases r with
  | error err => cases hok
  | ok table =>
    rcases hr with ⟨hfollow, hall⟩
    rw [List.nil_append] at hall hfollow
    dsimp only at hok
    split at hok
    · cases hok
    · cases hok
      have hlt : upper.length < F.levels := by omega
      have hdiff : F.DiffersAt known table idx m₁ (F.set m₁ table idx entry) :=
        Tables.differsAt_set (htree.table upper table hlt hfollow).1
      refine ⟨(F.frames_set ..).trans hall.frames, (F.requests_set ..).trans hall.requests,
        hall.granted, fun p hp => ?_⟩
      rw [← hall.follow p hp, htree.follow_of_not_below hfollow hlt hdiff hp.le]
      intro hbelow
      have hlong := hbelow.length_le
      rw [List.length_append, List.length_singleton] at hlong
      omega

/-- A page is mapped exactly if it is not mapped yet and there are frames for the missing tables. -/
theorem WellFormed.mapAt_ok_iff (h : F.WellFormed root m) (upper : List I) (idx : I) {entry : ℕ}
    (hfull : upper.length + 1 = F.levels) (hvalid : F.valid entry = true) :
    (F.mapAt root m upper idx entry).1 = .ok () ↔
      F.lookup m root (upper ++ [idx]) = none ∧ Granted m (F.missing m root [upper]).card := by
  have hlength : (upper ++ [idx]).length = F.levels := by
    rw [List.length_append, List.length_singleton, hfull]
  rcases h.mapAt upper idx (by omega) hvalid (.inr hfull) with ⟨r, m', hmap, -, -, hr⟩
  rw [hmap]
  cases r with
  | ok _ =>
    have hgranted := (h.mapAt_allocated hfull hmap).granted
    exact iff_of_true rfl ⟨hr.1 _ List.prefix_rfl hlength, hgranted⟩
  | error err =>
    refine iff_of_false (by simp) ?_
    rintro ⟨hnone, hgranted⟩
    rcases hr.2 with ⟨-, hcovered⟩ | ⟨rfl, -, -⟩
    · have hsome := hcovered hlength _ List.prefix_rfl hlength
      simp [hnone] at hsome
    · rcases h.walkAlloc upper Tables.follow_nil (by simpa using by omega) with
        ⟨r, m₁, hwalk, -, -, -, hr⟩
      rw [Paging.mapAt, hwalk] at hmap
      cases r with
      | error err =>
        cases hmap
        rcases hr with ⟨heq, -⟩ | ⟨-, -, -, hfail⟩
        · cases heq
        · exact hfail hgranted
      | ok table =>
        dsimp only at hmap
        split at hmap
        · cases hmap
        · cases hmap

/-- The tables of the first path are not missing for the others any more. -/
theorem Allocated.card_missing {paths : List (List I)} (h : F.Allocated root m m' path)
    (hlen : ∀ p ∈ paths, p.length < F.levels) :
    (F.missing m root (path :: paths)).card =
      (F.missing m root [path]).card + (F.missing m' root paths).card := by
  have hunion : F.missing m root (path :: paths) =
      F.missing m root [path] ∪ F.missing m' root paths := by
    ext p
    rw [Finset.mem_union, Tables.mem_missing, Tables.mem_missing_singleton, Tables.mem_missing]
    constructor
    · rintro ⟨⟨q, hq, hbelow⟩, hnone⟩
      by_cases hpath : p <+: path
      · exact .inl ⟨hpath, hnone⟩
      · have hq : q ∈ paths := by
          rcases List.mem_cons.mp hq with rfl | hq
          · exact absurd hbelow hpath
          · exact hq
        have hp := hbelow.length_le.trans_lt (hlen q hq)
        exact .inr ⟨⟨q, hq, hbelow⟩, (h.follow p hp).mpr ⟨hnone, hpath⟩⟩
    · rintro (⟨hpath, hnone⟩ | ⟨⟨q, hq, hbelow⟩, hnone⟩)
      · exact ⟨⟨path, List.mem_cons_self, hpath⟩, hnone⟩
      · have hp := hbelow.length_le.trans_lt (hlen q hq)
        exact ⟨⟨q, List.mem_cons_of_mem _ hq, hbelow⟩, ((h.follow p hp).mp hnone).1⟩
  rw [hunion, Finset.card_union_of_disjoint]
  rw [Finset.disjoint_left]
  intro p hfirst hrest
  rcases Tables.mem_missing.mp hrest with ⟨⟨q, hq, hbelow⟩, hnone⟩
  have hp := hbelow.length_le.trans_lt (hlen q hq)
  exact ((h.follow p hp).mp hnone).2 (Tables.mem_missing_singleton.mp hfirst).1

end OpenIon.Arch.Riscv.Paging
