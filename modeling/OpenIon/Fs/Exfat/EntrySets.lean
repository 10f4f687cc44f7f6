import OpenIon.Fs.Exfat.Entry
import Mathlib.Order.Basic
import Mathlib.Algebra.Order.Group.Nat
import Mathlib.Tactic.Common

/-! # Entry sets and buffers

The loop over the entries of a buffer looks ahead from a file entry and steps over what it
has read; since that never starts a set, the loop reports the set at every position, seen to
the end of the buffer. Cutting a directory into buffers therefore changes what is reported
exactly when a set is cut before its stream entry or before a name entry with characters.
-/
namespace OpenIon.Fs.Exfat

variable {e file stream : DirEntry} {es l r names : List DirEntry} {nameLen n : ℕ}
  {name : List UInt8}

/-! ### Names -/

/-- A name entry without characters. -/
def DirEntry.Blank (e : DirEntry) : Prop := ∀ ch ∈ e.chars, ch = 0

instance (e : DirEntry) : Decidable e.Blank :=
  inferInstanceAs (Decidable (∀ ch ∈ e.chars, ch = 0))

theorem length_le_addChar (ch : ℕ) : name.length ≤ (addChar nameLen name ch).length := by
  unfold addChar
  split_ifs <;> simp

theorem length_le_foldl_addChar (chs : List ℕ) :
    name.length ≤ (chs.foldl (addChar nameLen) name).length := by
  induction chs generalizing name with
  | nil => exact le_rfl
  | cons ch chs ih => exact (length_le_addChar ch).trans ih

/-- The name stays as it is when all characters are zero, and gets longer otherwise. -/
theorem foldl_addChar_cases (hlen : name.length < nameLen) (chs : List ℕ) :
    (∀ ch ∈ chs, ch = 0) ∧ chs.foldl (addChar nameLen) name = name ∨
      (¬ ∀ ch ∈ chs, ch = 0) ∧ name.length < (chs.foldl (addChar nameLen) name).length := by
  induction chs with
  | nil => simp
  | cons ch chs ih =>
    rw [List.forall_mem_cons, List.foldl_cons]
    by_cases hch : ch = 0
    · simpa [addChar, hch] using ih
    · right
      refine ⟨fun h => hch h.1, lt_of_lt_of_le ?_ (length_le_foldl_addChar chs)⟩
      simp [addChar, hch, hlen]

theorem collectName_cons_of (h : name.length < nameLen ∧ e.entryType = entryTypeName) :
    collectName nameLen (e :: es) name =
      ((collectName nameLen es (addChars nameLen e name)).1,
        (collectName nameLen es (addChars nameLen e name)).2 + 1) := by
  simp [collectName, h]

theorem collectName_cons_of_not (h : ¬ (name.length < nameLen ∧ e.entryType = entryTypeName)) :
    collectName nameLen (e :: es) name = (name, 0) := by
  simp [collectName, h]

theorem length_le_collectName : name.length ≤ (collectName nameLen es name).1.length := by
  induction es generalizing name with
  | nil => exact le_rfl
  | cons e es ih =>
    by_cases h : name.length < nameLen ∧ e.entryType = entryTypeName
    · rw [collectName_cons_of h]
      exact (length_le_foldl_addChar e.chars).trans ih
    · rw [collectName_cons_of_not h]

theorem entryType_of_mem_used (h : e ∈ es.take (collectName nameLen es name).2) :
    e.entryType = entryTypeName := by
  induction es generalizing name with
  | nil => simp at h
  | cons e' es ih =>
    by_cases hgo : name.length < nameLen ∧ e'.entryType = entryTypeName
    · rw [collectName_cons_of hgo, List.take_succ_cons, List.mem_cons] at h
      obtain rfl | h := h
      · exact hgo.2
      · exact ih h
    · simp [collectName_cons_of_not hgo] at h

theorem collectName_eq_self :
    (collectName nameLen es name).1 = name ↔
      ∀ e ∈ es.take (collectName nameLen es name).2, e.Blank := by
  induction es with
  | nil => simp [collectName]
  | cons e es ih =>
    by_cases hgo : name.length < nameLen ∧ e.entryType = entryTypeName
    · rw [collectName_cons_of hgo, List.take_succ_cons, List.forall_mem_cons]
      obtain ⟨hblank, heq⟩ | ⟨hblank, hlt⟩ := foldl_addChar_cases hgo.1 e.chars
      · rw [addChars, heq, ih]
        exact (and_iff_right hblank).symm
      · refine iff_of_false (fun heq => ?_) fun h => hblank h.1
        have hle : (addChars nameLen e name).length ≤
            (collectName nameLen es (addChars nameLen e name)).1.length := length_le_collectName
        rw [heq] at hle
        exact absurd hlt (not_lt_of_ge hle)
    · simp [collectName_cons_of_not hgo]

/-- Cutting off the entries `r` keeps the name when those it was read from have no characters. -/
theorem collectName_append :
    (collectName nameLen l name).1 = (collectName nameLen (l ++ r) name).1 ↔
      ∀ e ∈ ((l ++ r).take (collectName nameLen (l ++ r) name).2).drop l.length, e.Blank := by
  induction l generalizing name with
  | nil => exact eq_comm.trans collectName_eq_self
  | cons e l ih =>
    by_cases hgo : name.length < nameLen ∧ e.entryType = entryTypeName
    · rw [List.cons_append, collectName_cons_of hgo, collectName_cons_of hgo]
      exact ih
    · rw [List.cons_append, collectName_cons_of_not hgo, collectName_cons_of_not hgo]
      simp

/-! ### Sets -/

def report (e : DirEntry) : List DirEntry → List ExfatEntry
  | [] => []
  | stream :: names =>
    if e.entryType = entryTypeFile ∧ stream.entryType = entryTypeStream then
      [fileEntry e stream names]
    else []

/-- Stepping over entries that start no set and do not end the directory changes nothing. -/
theorem parseEntries_skip
    (h : ∀ e ∈ es.take n, e.entryType ≠ entryTypeUnused ∧ e.entryType ≠ entryTypeFile) :
    parseEntries es n = parseEntries es 0 := by
  induction es generalizing n with
  | nil => simp [parseEntries]
  | cons e es ih =>
    cases n with
    | zero => rfl
    | succ n =>
      rw [List.take_succ_cons, List.forall_mem_cons] at h
      rw [parseEntries, ih h.2]
      conv_rhs => unfold parseEntries
      simp [h.1.1, h.1.2]

theorem parseEntries_cons :
    parseEntries (e :: es) 0 =
      if e.entryType = entryTypeUnused then [] else report e es ++ parseEntries es 0 := by
  by_cases hunused : e.entryType = entryTypeUnused
  · simp [parseEntries, hunused]
  by_cases hfile : e.entryType = entryTypeFile
  · have hlabel : e.entryType ≠ entryTypeVolumeLabel := by rw [hfile]; decide
    cases es with
    | nil => simp [parseEntries, report, hfile]
    | cons stream names =>
      by_cases hstream : stream.entryType = entryTypeStream
      · -- what was read for the set is a stream entry and name entries
        have hskip : parseEntries (stream :: names)
            (1 + (collectName (stream.data 2).toNat names []).2) =
              parseEntries (stream :: names) 0 := by
          apply parseEntries_skip
          rw [Nat.add_comm, List.take_succ_cons, List.forall_mem_cons]
          refine ⟨by rw [hstream]; decide, fun x hx => ?_⟩
          rw [entryType_of_mem_used hx]
          decide
        rw [parseEntries, if_neg hunused, if_neg hlabel, if_pos hfile, if_neg hunused]
        simp only [hstream, ne_eq, not_true_eq_false, if_false, report, hfile, and_self, if_true,
          List.singleton_append]
        rw [hskip]
      · rw [parseEntries, if_neg hunused, if_neg hlabel, if_pos hfile, if_neg hunused]
        simp [report, hstream]
  · have hreport : report e es = [] := by cases es <;> simp [report, hfile]
    rw [if_neg hunused, hreport, List.nil_append]
    cases es <;> simp [parseEntries, hunused, hfile]

/-- After the end marker there are only unused entries. -/
def Ended (es : List DirEntry) : Prop :=
  es.Pairwise fun a b => a.entryType = entryTypeUnused → b.entryType = entryTypeUnused

/-- What is reported for the entries `l` when `r` follows them in the buffer. -/
def reports : List DirEntry → List DirEntry → List ExfatEntry
  | [], _ => []
  | e :: l, r =>
    if e.entryType = entryTypeUnused then [] else report e (l ++ r) ++ reports l r

theorem parseEntries_eq_nil (h : ∀ e ∈ es, e.entryType = entryTypeUnused) :
    parseEntries es 0 = [] := by
  cases es with
  | nil => rfl
  | cons e es => rw [parseEntries_cons, if_pos (h e List.mem_cons_self)]

theorem parseEntries_append (h : Ended (l ++ r)) :
    parseEntries (l ++ r) 0 = reports l r ++ parseEntries r 0 := by
  induction l with
  | nil => rfl
  | cons e l ih =>
    obtain ⟨hafter, hrest⟩ := List.pairwise_cons.mp h
    rw [List.cons_append, parseEntries_cons, reports]
    split_ifs with hunused
    · rw [parseEntries_eq_nil fun x hx => hafter x (List.mem_append_right l hx) hunused]
      rfl
    · rw [ih hrest, List.append_assoc]

theorem parseEntries_eq_reports (h : Ended l) : parseEntries l 0 = reports l [] := by
  have happend := parseEntries_append (l := l) (r := []) (by simpa using h)
  simpa [parseEntries] using happend

theorem length_report_le : (report e l).length ≤ (report e (l ++ r)).length := by
  cases l with
  | nil => exact Nat.zero_le _
  | cons stream names =>
    simp only [List.cons_append, report]
    split_ifs <;> simp

theorem length_reports_le : (reports l []).length ≤ (reports l r).length := by
  induction l with
  | nil => exact le_rfl
  | cons e l ih =>
    rw [reports, reports]
    split_ifs
    · exact le_rfl
    · rw [List.length_append, List.length_append, List.append_nil]
      exact Nat.add_le_add length_report_le ih

/-- Of two pairs of lists, the first no longer than the second, the concatenations agree only part
by part. -/
theorem append_inj_of_length_le {α : Type} {a b c d : List α} (hac : a.length ≤ c.length)
    (hbd : b.length ≤ d.length) : a ++ b = c ++ d ↔ a = c ∧ b = d := by
  refine ⟨fun h => ?_, fun h => by rw [h.1, h.2]⟩
  have hlength := congrArg List.length h
  rw [List.length_append, List.length_append] at hlength
  exact List.append_inj h (by omega)

theorem report_of_unused (h : e.entryType = entryTypeUnused) : report e l = [] := by
  have hfile : e.entryType ≠ entryTypeFile := by rw [h]; decide
  cases l <;> simp [report, hfile]

theorem reports_eq_iff (h : Ended l) :
    reports l [] = reports l r ↔
      ∀ pre e suf, l = pre ++ e :: suf → report e suf = report e (suf ++ r) := by
  induction l with
  | nil => simp [reports]
  | cons e l ih =>
    obtain ⟨hafter, hrest⟩ := List.pairwise_cons.mp h
    -- the set at `e` and the sets after it
    have hsplit : (∀ pre x suf, e :: l = pre ++ x :: suf → report x suf = report x (suf ++ r)) ↔
        report e l = report e (l ++ r) ∧
          ∀ pre x suf, l = pre ++ x :: suf → report x suf = report x (suf ++ r) := by
      constructor
      · intro hall
        refine ⟨hall [] e l rfl, fun pre x suf heq => hall (e :: pre) x suf ?_⟩
        rw [heq, List.cons_append]
      · rintro ⟨hhead, htail⟩ pre x suf heq
        cases pre with
        | nil =>
          obtain ⟨rfl, rfl⟩ := List.cons.inj heq
          exact hhead
        | cons y pre => exact htail pre x suf (List.cons.inj heq).2
    rw [hsplit, reports, reports]
    split_ifs with hunused
    · refine iff_of_true rfl ⟨?_, fun pre x suf heq => ?_⟩
      · rw [report_of_unused hunused, report_of_unused hunused]
      · have hx := hafter x (heq ▸ List.mem_append_right pre List.mem_cons_self) hunused
        rw [report_of_unused hx, report_of_unused hx]
    · rw [List.append_nil, append_inj_of_length_le length_report_le length_reports_le, ih hrest]

/-! ### Cuts -/

/-- The first `room` entries after the file entry hold the stream entry and every name entry that
adds characters. -/
def Fits (room : ℕ) (stream : DirEntry) (names : List DirEntry) : Prop :=
  1 ≤ room ∧ ∀ e ∈ (names.take (collectName (stream.data 2).toNat names []).2).drop (room - 1),
    e.Blank

theorem report_append_iff :
    report file l = report file (l ++ r) ↔
      ∀ stream names, l ++ r = stream :: names → file.entryType = entryTypeFile →
        stream.entryType = entryTypeStream → Fits l.length stream names := by
  cases l with
  | nil =>
    cases r with
    | nil => simp
    | cons stream names => simp [report, Fits]
  | cons stream names =>
    simp only [List.cons_append, List.cons.injEq, report, Fits, List.length_cons]
    split_ifs with hset
    · have hname : fileEntry file stream names = fileEntry file stream (names ++ r) ↔
          (collectName (stream.data 2).toNat names []).1 =
            (collectName (stream.data 2).toNat (names ++ r) []).1 := by
        simp [fileEntry]
      simp [hname, collectName_append, hset]
    · refine iff_of_true rfl ?_
      rintro _ _ ⟨rfl, rfl⟩ hfile hstream
      exact absurd ⟨hfile, hstream⟩ hset

/-- Every set lies in one cluster of `n` entries, as far as its name entries have characters. -/
def SetsFit (n : ℕ) (es : List DirEntry) : Prop :=
  ∀ pre file stream names, es = pre ++ file :: stream :: names →
    file.entryType = entryTypeFile → stream.entryType = entryTypeStream →
      Fits (n - 1 - pre.length % n) stream names

theorem setsFit_append (hl : l.length = n) :
    SetsFit n (l ++ r) ↔
      (∀ pre file suf, l = pre ++ file :: suf → report file suf = report file (suf ++ r)) ∧
        SetsFit n r := by
  constructor
  · intro h
    refine ⟨fun pre file suf heq => report_append_iff.mpr fun stream names hsuf hfile hstream => ?_,
      fun pre file stream names heq hfile hstream => ?_⟩
    · have hlength := congrArg List.length heq
      rw [hl, List.length_append, List.length_cons] at hlength
      have hfits := h pre file stream names
        (by rw [heq, List.append_assoc, List.cons_append, hsuf]) hfile hstream
      rwa [Nat.mod_eq_of_lt (by omega), show n - 1 - pre.length = suf.length by omega] at hfits
    · have hfits := h (l ++ pre) file stream names (by rw [heq, List.append_assoc]) hfile hstream
      rwa [List.length_append, hl, Nat.add_mod_left] at hfits
  · rintro ⟨hcut, hrest⟩ pre file stream names heq hfile hstream
    obtain ⟨pre', rfl, hr⟩ | ⟨suf, hsuf, hr⟩ := List.append_eq_append_iff.mp heq
    · have hfits := hrest pre' file stream names hr hfile hstream
      rwa [List.length_append, hl, Nat.add_mod_left]
    · cases suf with
      | nil =>
        have hfits := hrest [] file stream names hr.symm hfile hstream
        rw [List.append_nil] at hsuf
        rwa [← hsuf, hl, Nat.mod_self]
      | cons x suf =>
        obtain ⟨rfl, hnames⟩ := List.cons.inj hr
        have hlength := congrArg List.length hsuf
        rw [hl, List.length_append, List.length_cons] at hlength
        rw [Nat.mod_eq_of_lt (by omega), show n - 1 - pre.length = suf.length by omega]
        exact report_append_iff.mp (hcut pre file suf hsuf) stream names hnames.symm hfile hstream

/-- Parsing the clusters of a directory one by one gives the sets of the whole directory exactly
when every set fits. -/
theorem flatMap_parseEntries_iff {chunks : List (List DirEntry)} (hn : ∀ c ∈ chunks, c.length = n)
    (hend : Ended chunks.flatten) :
    (chunks.flatMap (parseEntries · 0)).length ≤ (parseEntries chunks.flatten 0).length ∧
      (chunks.flatMap (parseEntries · 0) = parseEntries chunks.flatten 0 ↔
        SetsFit n chunks.flatten) := by
  induction chunks with
  | nil => simp [parseEntries, SetsFit]
  | cons c chunks ih =>
    rw [List.forall_mem_cons] at hn
    rw [List.flatten_cons] at hend ⊢
    have hc : Ended c := (List.pairwise_append.mp hend).1
    obtain ⟨ihle, iheq⟩ := ih hn.2 (List.pairwise_append.mp hend).2.1
    rw [List.flatMap_cons, parseEntries_append hend, parseEntries_eq_reports hc]
    constructor
    · rw [List.length_append, List.length_append]
      exact Nat.add_le_add length_reports_le ihle
    · rw [append_inj_of_length_le length_reports_le ihle, reports_eq_iff hc, iheq,
        setsFit_append hn.1]

end OpenIon.Fs.Exfat
