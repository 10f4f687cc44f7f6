import OpenIon.Shell.Path

/-! # Normalised paths

`normalize_path` keeps its path in one buffer and finds the last component by going back to a
slash. The components that the buffer lists form a stack: `..` takes the last one off, and every
name is put on top. A path is refused exactly if one of the stacks on the way does not fit into
the buffer.
-/
namespace OpenIon.Shell
open Lib Fs

/-- A component that is neither skipped nor goes up. -/
def IsName (c : List UInt8) : Prop := c ≠ [] ∧ c ≠ ascii "." ∧ c ≠ ascii ".."

instance IsName.instDecidable (c : List UInt8) : Decidable (IsName c) :=
  inferInstanceAs (Decidable (_ ∧ _))

/-- An absolute path, the root or one made of names only: no slash is doubled or at the end. -/
def Normal (path : List UInt8) : Prop :=
  path.head? = some slash ∧ (path.tail = [] ∨ ∀ c ∈ path.tail.splitOn slash, IsName c)

instance Normal.instDecidable (path : List UInt8) : Decidable (Normal path) :=
  inferInstanceAs (Decidable (_ ∧ _))

/-- What a component does to the stack of names. -/
def enter (stack : List (List UInt8)) (c : List UInt8) : List (List UInt8) :=
  if c = [] ∨ c = ascii "." then stack
  else if c = ascii ".." then stack.dropLast
  else stack ++ [c]

/-- The absolute path that lists the stack. -/
def listing (stack : List (List UInt8)) : List UInt8 :=
  if stack = [] then [slash] else joined slash stack

def Fits (stack : List (List UInt8)) : Prop := (listing stack).length ≤ pathMax

instance Fits.instDecidable (stack : List (List UInt8)) : Decidable (Fits stack) :=
  inferInstanceAs (Decidable (_ ≤ _))

/-- The components that are processed: a relative path starts in the working directory. -/
def components (cwd path : List UInt8) : List (List UInt8) :=
  (if path.head? = some slash then [] else cwd.splitOn slash) ++ path.splitOn slash

def Clean (stack : List (List UInt8)) : Prop := ∀ c ∈ stack, IsName c ∧ slash ∉ c

variable {cwd path c p q : List UInt8} {stack comps : List (List UInt8)}

theorem listing_concat : listing (stack ++ [c]) = joined slash stack ++ slash :: c := by
  rw [listing, if_neg (by simp), joined_concat]

theorem listing_of_ne_nil (h : stack ≠ []) : listing stack = joined slash stack := if_neg h

theorem clean_nil : Clean [] := fun _ hc => absurd hc List.not_mem_nil

theorem Clean.enter (h : Clean stack) (hc : slash ∉ c) : Clean (enter stack c) := by
  unfold Shell.enter
  split_ifs with hskip hup
  · exact h
  · exact fun x hx => h x ((List.dropLast_subset stack hx))
  · intro x hx
    obtain hx | hx := List.mem_append.mp hx
    · exact h x hx
    · obtain rfl := List.mem_singleton.mp hx
      rw [not_or] at hskip
      exact ⟨⟨hskip.1, hskip.2, hup⟩, hc⟩

theorem Clean.foldl_enter (h : Clean stack) (hcomps : ∀ c ∈ comps, slash ∉ c) :
    Clean (comps.foldl Shell.enter stack) := by
  induction comps generalizing stack with
  | nil => exact h
  | cons c comps ih =>
    exact ih (h.enter (hcomps c List.mem_cons_self)) fun x hx =>
      hcomps x (List.mem_cons_of_mem c hx)

theorem enter_of_isName (h : IsName c) : enter stack c = stack ++ [c] := by
  rw [enter, if_neg (not_or.mpr ⟨h.1, h.2.1⟩), if_neg h.2.2]

/-! ### The buffer lists the stack -/

theorem chop_slash (rest : List UInt8) : chop (slash :: rest) = slash :: rest := by
  cases rest with
  | nil => rfl
  | cons y rest => simp [chop]

theorem chop_append {l rest : List UInt8} (h : slash ∉ l) :
    chop (l ++ slash :: rest) = slash :: rest := by
  induction l with
  | nil => exact chop_slash rest
  | cons x l ih =>
    rw [List.mem_cons, not_or] at h
    have hrest := ih h.2
    cases l with
    | nil => rw [List.cons_append, List.nil_append, chop, if_pos (Ne.symm h.1), chop_slash]
    | cons y l => rw [List.cons_append, List.cons_append, chop, if_pos (Ne.symm h.1)]; exact hrest

theorem popComponent_listing (h : Clean stack) :
    popComponent (listing stack) = listing stack.dropLast := by
  induction stack using List.reverseRecOn with
  | nil => rfl
  | append_singleton stack c _ =>
    have hc : slash ∉ c.reverse := by
      rw [List.mem_reverse]
      exact (h c (by simp)).2
    have hreverse : (listing (stack ++ [c])).reverse =
        c.reverse ++ slash :: (joined slash stack).reverse := by
      rw [listing_concat, List.reverse_append, List.reverse_cons, List.append_assoc,
        List.singleton_append]
    rw [popComponent, hreverse, chop_append hc, List.dropLast_concat]
    cases hrest : (joined slash stack).reverse with
    | nil =>
      have hstack : stack = [] := by
        cases stack with
        | nil => rfl
        | cons x stack => simp [joined] at hrest
      rw [hstack]
      rfl
    | cons y rest =>
      have hstack : stack ≠ [] := by
        rintro rfl
        cases hrest
      rw [listing_of_ne_nil hstack]
      dsimp only
      rw [← hrest, List.reverse_reverse]

theorem fits_dropLast (h : Fits stack) : Fits stack.dropLast := by
  induction stack using List.reverseRecOn with
  | nil => exact h
  | append_singleton stack c _ =>
    rw [List.dropLast_concat]
    unfold Fits at h ⊢
    rw [listing_concat, List.length_append, List.length_cons] at h
    by_cases hstack : stack = []
    · rw [hstack]
      decide
    · rw [listing_of_ne_nil hstack]
      omega

/-- The slash is written before every name but the first, which follows the slash of the root. -/
theorem listing_append (h : Clean stack) :
    listing stack ++ (if 1 < (listing stack).length then [slash] else []) ++ c =
      listing (stack ++ [c]) := by
  rw [listing_concat]
  cases stack with
  | nil => rfl
  | cons x stack =>
    have hx := List.length_pos_of_ne_nil (h x List.mem_cons_self).1.1
    have hlength : 1 < (joined slash (x :: stack)).length := by
      simp [joined]
      omega
    rw [listing_of_ne_nil (List.cons_ne_nil x stack), if_pos hlength, List.append_assoc,
      List.singleton_append]

/-- A component changes the buffer as it changes the stack. -/
theorem pushComponent_listing (h : Clean stack) (hfits : Fits stack) (c : List UInt8) :
    pushComponent (listing stack) c =
      if Fits (enter stack c) then some (listing (enter stack c)) else none := by
  unfold pushComponent enter
  by_cases hskip : c = [] ∨ c = ascii "."
  · rw [if_pos hskip, if_pos hskip, if_pos hfits]
  rw [if_neg hskip, if_neg hskip]
  by_cases hup : c = ascii ".."
  · rw [if_pos hup, if_pos hup, if_pos (fits_dropLast hfits), popComponent_listing h]
  have hroom : Fits (stack ++ [c]) ↔ (listing stack).length +
      (if 1 < (listing stack).length then [slash] else []).length + c.length ≤ pathMax := by
    unfold Fits
    rw [← listing_append h, List.length_append, List.length_append]
  rw [if_neg hup, if_neg hup]
  dsimp only
  by_cases hlong : pathMax < (listing stack).length +
      (if 1 < (listing stack).length then [slash] else []).length + c.length
  · rw [if_pos hlong, if_neg fun hfits => absurd (hroom.mp hfits) (Nat.not_le.mpr hlong)]
  · rw [if_neg hlong, if_pos (hroom.mpr (Nat.le_of_not_lt hlong)), listing_append h]

/-- The components are processed on the stack, and every stack on the way has to fit. -/
theorem foldlM_pushComponent (h : Clean stack) (hfits : Fits stack)
    (hcomps : ∀ c ∈ comps, slash ∉ c) :
    comps.foldlM pushComponent (listing stack) =
      if ∀ s ∈ comps.scanl enter stack, Fits s then some (listing (comps.foldl enter stack))
      else none := by
  induction comps generalizing stack with
  | nil => simp [hfits]
  | cons c comps ih =>
    rw [List.foldlM_cons, pushComponent_listing h hfits, List.scanl_cons, List.foldl_cons]
    by_cases hnext : Fits (enter stack c)
    · rw [if_pos hnext, Option.bind_eq_bind, Option.bind_some,
        ih (h.enter (hcomps c List.mem_cons_self)) hnext
          fun x hx => hcomps x (List.mem_cons_of_mem c hx)]
      simp [hfits]
    · have hmem : enter stack c ∈ comps.scanl enter (enter stack c) := by
        cases comps <;> simp
      rw [if_neg hnext, if_neg fun hall => hnext (hall _ (List.mem_cons_of_mem _ hmem))]
      rfl

/-! ### Normal paths -/

theorem splitOn_listing (h : Clean stack) (hne : stack ≠ []) :
    (listing stack).splitOn slash = [] :: stack := by
  rw [listing_of_ne_nil hne]
  exact splitOn_joined fun c hc => (h c hc).2

theorem head_listing (stack : List (List UInt8)) : (listing stack).head? = some slash := by
  cases stack with
  | nil => rfl
  | cons c stack => simp [listing, joined]

/-- The normal paths are those that list a stack of names. -/
theorem normal_iff : Normal path ↔ ∃ stack, Clean stack ∧ path = listing stack := by
  constructor
  · rintro ⟨hhead, hrest⟩
    obtain ⟨rest, rfl⟩ : ∃ rest, path = slash :: rest := List.head?_eq_some_iff.mp hhead
    obtain hrest | hrest := hrest
    · obtain rfl : rest = [] := hrest
      exact ⟨[], clean_nil, rfl⟩
    · refine ⟨rest.splitOn slash, fun c hc => ⟨hrest c hc, notMem_of_mem_splitOn hc⟩, ?_⟩
      rw [listing_of_ne_nil (List.splitOn_ne_nil _ _), joined_splitOn]
  · rintro ⟨stack, h, rfl⟩
    refine ⟨head_listing stack, ?_⟩
    cases stack with
    | nil => exact .inl rfl
    | cons c stack =>
      refine .inr fun x hx => (h x ?_).1
      have htail : listing (c :: stack) = slash :: (listing (c :: stack)).tail := by
        simp [listing, joined]
      have hsplit := splitOn_listing h (List.cons_ne_nil c stack)
      rw [htail] at hsplit
      have hcut := List.splitOn_append_cons_self (a := slash) [] (listing (c :: stack)).tail
      rw [List.nil_append, hsplit] at hcut
      have hnames : c :: stack = (listing (c :: stack)).tail.splitOn slash :=
        (List.cons.inj hcut).2
      rwa [hnames]

theorem foldlM_listing (h : Clean stack) (hfits : Fits stack) :
    ((listing stack).splitOn slash).foldlM pushComponent [slash] = some (listing stack) := by
  have hnames : ([] :: stack).foldlM pushComponent [slash] = some (listing stack) := by
    induction stack using List.reverseRecOn with
    | nil => rfl
    | append_singleton stack c ih =>
      have hfits' : Fits stack := by
        have hdrop := fits_dropLast hfits
        rwa [List.dropLast_concat] at hdrop
      have hclean : Clean stack := fun x hx => h x (List.mem_append_left _ hx)
      have hc : IsName c := (h c (by simp)).1
      rw [← List.cons_append, List.foldlM_append, ih hclean hfits', Option.bind_eq_bind,
        Option.bind_some, List.foldlM_cons, pushComponent_listing hclean hfits',
        enter_of_isName hc, if_pos hfits]
      rfl
  by_cases hne : stack = []
  · subst hne
    rfl
  · rw [splitOn_listing h hne, hnames]

theorem normalizePath_eq_foldlM (hcwd : cwd.head? = some slash) (path : List UInt8) :
    normalizePath cwd path = (components cwd path).foldlM pushComponent [slash] := by
  unfold normalizePath components
  rw [List.foldlM_append]
  by_cases hpath : path = []
  · -- the working directory and an empty component
    subst hpath
    have hskip : ∀ out : List UInt8, pushComponent out [] = some out := fun out => rfl
    simp [hcwd, hskip]
  · rw [if_neg hpath]
    by_cases habs : path.head? = some slash
    · rw [if_pos habs, if_pos habs]
      rfl
    · rw [if_neg habs, if_neg habs]

theorem notMem_of_mem_components (hc : c ∈ components cwd path) : slash ∉ c := by
  obtain hc | hc := List.mem_append.mp hc
  · split_ifs at hc
    · exact absurd hc List.not_mem_nil
    · exact notMem_of_mem_splitOn hc
  · exact notMem_of_mem_splitOn hc

/-- The result of `normalize_path` in terms of the stack. -/
theorem normalizePath_eq (hcwd : cwd.head? = some slash) (path : List UInt8) :
    normalizePath cwd path =
      if ∀ s ∈ (components cwd path).scanl enter [], Fits s then
        some (listing ((components cwd path).foldl enter []))
      else none := by
  rw [normalizePath_eq_foldlM hcwd]
  exact foldlM_pushComponent clean_nil (by decide) fun c hc => notMem_of_mem_components hc

theorem normalizePath_some (hcwd : cwd.head? = some slash) (h : normalizePath cwd path = some q) :
    ∃ stack, Clean stack ∧ Fits stack ∧ q = listing stack ∧
      stack = (components cwd path).foldl enter [] := by
  rw [normalizePath_eq hcwd] at h
  split_ifs at h with hfits
  obtain rfl := Option.some.inj h
  refine ⟨_, clean_nil.foldl_enter fun c hc => notMem_of_mem_components hc, hfits _ ?_, rfl, rfl⟩
  exact List.mem_of_getLast? List.getLast?_scanl

/-- A relative path is followed from the stack that the working directory lists. -/
theorem normalizePath_relative (h : Clean stack) (hfits : Fits stack)
    (hpath : path.head? ≠ some slash) :
    normalizePath (listing stack) path =
      (path.splitOn slash).foldlM pushComponent (listing stack) := by
  rw [normalizePath_eq_foldlM (head_listing stack), components, if_neg hpath, List.foldlM_append,
    foldlM_listing h hfits]
  rfl

/-- A normal path that fits is its own normal form. -/
theorem normalizePath_listing (h : Clean stack) (hfits : Fits stack)
    (hcwd : cwd.head? = some slash) : normalizePath cwd (listing stack) = some (listing stack) := by
  rw [normalizePath_eq_foldlM hcwd, components, if_pos (head_listing stack), List.nil_append,
    foldlM_listing h hfits]

theorem normalizePath_append (hcwd : cwd.head? = some slash) (hp : p ≠ [])
    (hq : q.head? ≠ some slash) :
    normalizePath cwd (p ++ slash :: q) = (normalizePath cwd p).bind (normalizePath · q) := by
  have hhead : (p ++ slash :: q).head? = p.head? := List.head?_append_of_ne_nil p hp
  have hcomps : components cwd (p ++ slash :: q) = components cwd p ++ q.splitOn slash := by
    rw [components, components, hhead, List.splitOn_append_cons_self, List.append_assoc]
  rw [normalizePath_eq_foldlM hcwd, hcomps, List.foldlM_append, ← normalizePath_eq_foldlM hcwd]
  cases hfirst : normalizePath cwd p with
  | none => rfl
  | some r =>
    obtain ⟨stack, hclean, hfits, rfl, -⟩ := normalizePath_some hcwd hfirst
    exact (normalizePath_relative hclean hfits hq).symm

/-- For every normal working directory and every path: the path is refused exactly if a stack on
the way does not fit, the result lists the last stack and is normal, it is its own normal form,
and a path may be normalised in two parts. -/
theorem normalize_path_is_stack (hcwd : Normal cwd) (path : List UInt8) :
    (normalizePath cwd path = none ↔
      ∃ s ∈ (components cwd path).scanl enter [], pathMax < (listing s).length) ∧
    (∀ q, normalizePath cwd path = some q →
      q = listing ((components cwd path).foldl enter []) ∧ Normal q ∧
        ∀ cwd', Normal cwd' → normalizePath cwd' q = some q) ∧
    ∀ p q, p ≠ [] → q.head? ≠ some slash →
      normalizePath cwd (p ++ slash :: q) = (normalizePath cwd p).bind (normalizePath · q) := by
  refine ⟨?_, fun q hq => ?_, fun p q hp hq => normalizePath_append hcwd.1 hp hq⟩
  · rw [normalizePath_eq hcwd.1]
    split_ifs with hfits
    · simpa [Fits] using hfits
    · simpa [Fits] using hfits
  · obtain ⟨stack, hclean, hfits, rfl, rfl⟩ := normalizePath_some hcwd.1 hq
    exact ⟨rfl, normal_iff.mpr ⟨_, hclean, rfl⟩,
      fun cwd' hcwd' => normalizePath_listing hclean hfits hcwd'.1⟩

theorem relative_path_is_stack :
    Normal (ascii "/a/b") ∧ (normalizePath (ascii "/a/b") (ascii "../c//./d") = some (ascii "/a/c/d")) ∧
    ∀ q, normalizePath (ascii "/a/b") (ascii "../c//./d") = some q → Normal q := by
  have hcwd : Normal (ascii "/a/b") := by decide
  exact ⟨hcwd, by decide, fun q hq => ((normalize_path_is_stack hcwd _).2.1 q hq).2.1⟩

end OpenIon.Shell
