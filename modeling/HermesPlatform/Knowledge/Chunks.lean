/-
  HermesPlatform.Knowledge.Chunks

  `chunk_text`: the windows that the loop puts on the normalised text, and the chunks, which
  are the windows without the blanks at their ends.

  A window ends at `max_chars`, or at the last line end or blank in its second half; the next
  one starts `overlap_chars` before that end, and one character further on at least.  The
  windows leave no gap, and a window that is only blanks has nothing to cover.
-/

import HermesPlatform.Lib.Python
import Mathlib.Data.List.DropRight

namespace HermesPlatform
namespace Knowledge

open Python

/-! ## The normalised text -/

/-- `text.replace("\\r\\n", "\\n")`. -/
def replaceCrlf : List Char → List Char
  | '\r' :: '\n' :: rest => '\n' :: replaceCrlf rest
  | c :: rest => c :: replaceCrlf rest
  | [] => []

/-- The text with the ends of its lines and its own ends stripped. -/
def normalized (text : String) : List Char :=
  stripChars (List.intercalate ['\n'] (((replaceCrlf text.toList).splitOn '\n').map rstripChars))

/-! ## The loop -/

section Loop

variable (text : List Char) (maxChars overlapChars : Nat)

/-- `text.rfind(c, first, last)`. -/
def rfind (c : Char) (first : Nat) : Nat → Int
  | 0 => -1
  | last + 1 =>
      if last < first then -1
      else if text[last]? = some c then (last : Int)
      else rfind c first last

/-- `end` of the window that starts at `start`. -/
def windowEnd (start : Nat) : Nat :=
  let hardEnd := min text.length (start + maxChars)
  if hardEnd < text.length then
    let boundary := max (rfind text '\n' (start + maxChars / 2) hardEnd)
      (rfind text ' ' (start + maxChars / 2) hardEnd)
    if boundary > start then boundary.toNat else hardEnd
  else hardEnd

/-- `text[start:end]`. -/
def slice (window : Nat × Nat) : List Char := (text.take window.2).drop window.1

/-- `start` of the next window. -/
def nextStart (start : Nat) : Nat := max (start + 1) (windowEnd text maxChars start - overlapChars)

/-- The windows from `start` on. -/
def windowsFrom (start : Nat) : List (Nat × Nat) :=
  if start < text.length then
    (start, windowEnd text maxChars start) ::
      if text.length ≤ windowEnd text maxChars start then []
      else windowsFrom (nextStart text maxChars overlapChars start)
  else []
termination_by text.length - start
decreasing_by
  have hnext : start + 1 ≤ nextStart text maxChars overlapChars start := Nat.le_max_left _ _
  omega

/-- The loop. -/
def chunksFrom (start : Nat) (chunks : List (List Char)) : List (List Char) :=
  if start < text.length then
    let chunk := stripChars (slice text (start, windowEnd text maxChars start))
    let chunks := if chunk = [] then chunks else chunks ++ [chunk]
    if text.length ≤ windowEnd text maxChars start then chunks
    else chunksFrom (nextStart text maxChars overlapChars start) chunks
  else chunks
termination_by text.length - start
decreasing_by
  have hnext : start + 1 ≤ nextStart text maxChars overlapChars start := Nat.le_max_left _ _
  omega

end Loop

/-- `chunk_text`. -/
def chunkText (text : String) (maxChars overlapChars : Int) : Except String (List String) :=
  if maxChars < 256 ∨ overlapChars < 0 ∨ overlapChars ≥ maxChars then
    .error "invalid chunk configuration"
  else
    .ok ((chunksFrom (normalized text) maxChars.toNat overlapChars.toNat 0 []).map String.ofList)

/-! ## The ends of a window -/

section Windows

variable {text : List Char} {maxChars overlapChars : Nat}

theorem rfind_lt (text : List Char) (c : Char) (first last : Nat) :
    rfind text c first last < (last : Int) := by
  induction last with
  | zero => exact Int.negSucc_lt_zero 0
  | succ last ih =>
      rw [rfind]
      split
      · omega
      split
      · omega
      · omega

/-- A window is not empty, ends in the text and has at most `maxChars` characters. -/
theorem windowEnd_bounds (hmax : 0 < maxChars) {start : Nat} (hstart : start < text.length) :
    start < windowEnd text maxChars start ∧ windowEnd text maxChars start ≤ text.length ∧
      windowEnd text maxChars start ≤ start + maxChars := by
  simp only [windowEnd]
  have hline := rfind_lt text '\n' (start + maxChars / 2)
    (min text.length (start + maxChars))
  have hblank := rfind_lt text ' ' (start + maxChars / 2)
    (min text.length (start + maxChars))
  have hboundary := Int.max_lt.mpr ⟨hline, hblank⟩
  split
  · split
    · omega
    · omega
  · omega

theorem windowsFrom_of_lt {start : Nat} (h : start < text.length) :
    windowsFrom text maxChars overlapChars start =
      (start, windowEnd text maxChars start) ::
        if text.length ≤ windowEnd text maxChars start then []
        else windowsFrom text maxChars overlapChars (nextStart text maxChars overlapChars start) := by
  rw [windowsFrom, if_pos h]

/-- Induction along the loop: `P` of the windows from each start on. -/
theorem windowsFrom_induction {P : Nat → List (Nat × Nat) → Prop}
    (hend : ∀ start, text.length ≤ start → P start [])
    (hlast : ∀ start, start < text.length → text.length ≤ windowEnd text maxChars start →
      P start [(start, windowEnd text maxChars start)])
    (hnext : ∀ start windows, start < text.length → windowEnd text maxChars start < text.length →
      P (nextStart text maxChars overlapChars start) windows →
      P start ((start, windowEnd text maxChars start) :: windows)) (start : Nat) :
    P start (windowsFrom text maxChars overlapChars start) := by
  fun_induction windowsFrom text maxChars overlapChars start with
  | case1 start hstart ih =>
      split
      next hfinish => exact hlast start hstart hfinish
      next hfinish => exact hnext start _ hstart (by omega) ih
  | case2 start hstart => exact hend start (by omega)

theorem nextStart_bounds (overlapChars : Nat) (hmax : 0 < maxChars) {start : Nat}
    (hstart : start < text.length) :
    start < nextStart text maxChars overlapChars start ∧
      nextStart text maxChars overlapChars start ≤ windowEnd text maxChars start ∧
      windowEnd text maxChars start ≤ nextStart text maxChars overlapChars start + overlapChars := by
  obtain ⟨hpos, -, -⟩ := windowEnd_bounds hmax hstart
  simp only [nextStart]
  omega

/-- A window of the loop. -/
theorem windows_bounds (hmax : 0 < maxChars) (start : Nat) :
    ∀ w ∈ windowsFrom text maxChars overlapChars start,
      start ≤ w.1 ∧ w.1 < w.2 ∧ w.2 ≤ text.length ∧ w.2 ≤ w.1 + maxChars := by
  refine windowsFrom_induction (P := fun start windows => ∀ w ∈ windows,
    start ≤ w.1 ∧ w.1 < w.2 ∧ w.2 ≤ text.length ∧ w.2 ≤ w.1 + maxChars) ?_ ?_ ?_ start
  · simp
  · intro start hstart _ w hw
    rw [List.mem_singleton.mp hw]
    exact ⟨Nat.le_refl _, windowEnd_bounds hmax hstart⟩
  · intro start windows hstart _ ih w hw
    obtain rfl | hw := List.mem_cons.mp hw
    · exact ⟨Nat.le_refl _, windowEnd_bounds hmax hstart⟩
    · obtain ⟨hnext, -, -⟩ := nextStart_bounds overlapChars hmax hstart
      obtain ⟨hfirst, hrest⟩ := ih w hw
      exact ⟨by omega, hrest⟩

/-- Later windows start later, and no more than the overlap before the end of a window. -/
theorem windows_pairwise (hmax : 0 < maxChars) (start : Nat) :
    (windowsFrom text maxChars overlapChars start).Pairwise fun w w' =>
      w.1 < w'.1 ∧ w.2 ≤ w'.1 + overlapChars := by
  -- The induction needs where the windows of the rest start, too.
  refine (windowsFrom_induction (P := fun start windows =>
    windows.Pairwise (fun w w' => w.1 < w'.1 ∧ w.2 ≤ w'.1 + overlapChars) ∧
      ∀ w ∈ windows, start ≤ w.1) ?_ ?_ ?_ start).1
  · simp
  · simp
  · intro start windows hstart _ ih
    obtain ⟨hnext, -, hoverlap⟩ := nextStart_bounds overlapChars hmax hstart
    obtain ⟨hpairs, hfirst⟩ := ih
    constructor
    · refine List.pairwise_cons.mpr ⟨?_, hpairs⟩
      intro w' hw'
      have hlater := hfirst w' hw'
      exact ⟨by omega, by omega⟩
    · intro w hw
      obtain rfl | hw := List.mem_cons.mp hw
      · exact Nat.le_refl _
      · have hlater := hfirst w hw
        omega

/-- The windows leave no gap. -/
theorem windows_cover (hmax : 0 < maxChars) (start : Nat) :
    ∀ i, start ≤ i → i < text.length →
      ∃ w ∈ windowsFrom text maxChars overlapChars start, w.1 ≤ i ∧ i < w.2 := by
  refine windowsFrom_induction (P := fun start windows => ∀ i, start ≤ i → i < text.length →
    ∃ w ∈ windows, w.1 ≤ i ∧ i < w.2) ?_ ?_ ?_ start
  · intro start hstart i hi hlength
    omega
  · intro start hstart hfinish i hi hlength
    exact ⟨_, List.mem_singleton_self _, hi, Nat.lt_of_lt_of_le hlength hfinish⟩
  · intro start windows hstart hfinish ih i hi hlength
    obtain ⟨-, hnext, -⟩ := nextStart_bounds overlapChars hmax hstart
    -- The next window starts before this one ends, so `i` is in one of the two or behind both.
    by_cases hin : i < windowEnd text maxChars start
    · exact ⟨_, List.mem_cons_self, hi, hin⟩
    · obtain ⟨w, hw, hcovers⟩ := ih i (by omega) hlength
      exact ⟨w, List.mem_cons_of_mem _ hw, hcovers⟩

/-- The loop goes round at most once for each character. -/
theorem windows_length (start : Nat) :
    (windowsFrom text maxChars overlapChars start).length ≤ text.length - start := by
  refine windowsFrom_induction (P := fun start windows =>
    windows.length ≤ text.length - start) ?_ ?_ ?_ start
  · simp
  · intro start hstart _
    rw [List.length_singleton]
    omega
  · intro start windows hstart _ ih
    have hnext : start + 1 ≤ nextStart text maxChars overlapChars start := Nat.le_max_left _ _
    rw [List.length_cons]
    omega

end Windows

/-! ## The chunk of a window -/

/-- A window without the blanks at its ends. -/
def stripped (text : List Char) (w : Nat × Nat) : Nat × Nat :=
  let lead := ((slice text w).takeWhile isSpace).length
  (w.1 + lead, w.1 + lead + (stripChars (slice text w)).length)

/-- The parts of the text that are chunks. -/
def spans (text : List Char) (windows : List (Nat × Nat)) : List (Nat × Nat) :=
  (windows.filter fun w => stripChars (slice text w) ≠ []).map (stripped text)

section Stripping

variable {text : List Char}

/-- What `strip` takes away is blank. -/
theorem stripChars_split (cs : List Char) : ∃ trail, (∀ c ∈ trail, isSpace c = true) ∧
    cs = cs.takeWhile isSpace ++ (stripChars cs ++ trail) := by
  refine ⟨(cs.dropWhile isSpace).rtakeWhile isSpace, fun c => List.mem_rtakeWhile_imp, ?_⟩
  have hrest : stripChars cs ++ (cs.dropWhile isSpace).rtakeWhile isSpace = cs.dropWhile isSpace :=
    List.rdropWhile_append_rtakeWhile
  rw [hrest, List.takeWhile_append_dropWhile]

theorem slice_eq (w : Nat × Nat) : slice text w = (text.drop w.1).take (w.2 - w.1) := by
  rw [slice, List.drop_take]

theorem length_slice {w : Nat × Nat} (hw : w.2 ≤ text.length) :
    (slice text w).length = w.2 - w.1 := by
  rw [slice, List.length_drop, List.length_take]
  omega

theorem stripped_le {w : Nat × Nat} (h : w.1 ≤ w.2) (hw : w.2 ≤ text.length) :
    w.1 ≤ (stripped text w).1 ∧ (stripped text w).2 ≤ w.2 := by
  obtain ⟨trail, -, hsplit⟩ := stripChars_split (slice text w)
  have hlength := congrArg List.length hsplit
  rw [length_slice hw, List.length_append, List.length_append] at hlength
  simp only [stripped]
  omega

theorem slice_stripped {w : Nat × Nat} (h : w.1 ≤ w.2) (hw : w.2 ≤ text.length) :
    slice text (stripped text w) = stripChars (slice text w) := by
  obtain ⟨trail, -, hsplit⟩ := stripChars_split (slice text w)
  obtain ⟨-, hend⟩ := stripped_le h hw
  have hlength : ((slice text w).takeWhile isSpace).length + (stripChars (slice text w)).length ≤
      w.2 - w.1 := by
    simp only [stripped] at hend
    omega
  have hdrop : (slice text w).drop ((slice text w).takeWhile isSpace).length =
      stripChars (slice text w) ++ trail := by
    calc (slice text w).drop ((slice text w).takeWhile isSpace).length
        = ((slice text w).takeWhile isSpace ++ (stripChars (slice text w) ++ trail)).drop
            ((slice text w).takeWhile isSpace).length := by rw [← hsplit]
      _ = stripChars (slice text w) ++ trail := List.drop_left
  calc slice text (stripped text w)
      = (text.drop (w.1 + ((slice text w).takeWhile isSpace).length)).take
          (stripChars (slice text w)).length := by
        rw [slice_eq, stripped, Nat.add_sub_cancel_left]
    _ = ((slice text w).drop ((slice text w).takeWhile isSpace).length).take
          (stripChars (slice text w)).length := by
        rw [slice_eq w, List.drop_take, List.drop_drop, List.take_take, Nat.min_eq_left]
        rw [slice_eq w] at hlength
        omega
    _ = stripChars (slice text w) := by rw [hdrop, List.take_left]

theorem getElem?_slice {w : Nat × Nat} {i : Nat} (hlow : w.1 ≤ i) (hhigh : i < w.2) :
    (slice text w)[i - w.1]? = text[i]? := by
  rw [slice, List.getElem?_drop, List.getElem?_take, if_pos (by omega)]
  congr 1
  omega

/-- A character of the window that is outside its chunk is blank. -/
theorem isSpace_outside {w : Nat × Nat} {i : Nat} {c : Char} (hlow : w.1 ≤ i) (hhigh : i < w.2)
    (hc : text[i]? = some c) (hout : i < (stripped text w).1 ∨ (stripped text w).2 ≤ i) :
    isSpace c = true := by
  obtain ⟨trail, htrail, hsplit⟩ := stripChars_split (slice text w)
  have hslice : (slice text w)[i - w.1]? = text[i]? := getElem?_slice hlow hhigh
  rw [hc, hsplit] at hslice
  simp only [stripped] at hout
  obtain hlead | htail := hout
  · rw [List.getElem?_append_left (by omega)] at hslice
    exact List.mem_takeWhile_imp (List.mem_of_getElem? hslice)
  · rw [List.getElem?_append_right (by omega), List.getElem?_append_right (by omega)] at hslice
    exact htrail c (List.mem_of_getElem? hslice)

/-- A chunk starts with a character that is not blank. -/
theorem stripped_head {w : Nat × Nat} (hne : stripChars (slice text w) ≠ []) :
    ∃ c, text[(stripped text w).1]? = some c ∧ isSpace c = false := by
  obtain ⟨c, rest, hchunk⟩ := List.exists_cons_of_ne_nil hne
  obtain ⟨trail, -, hsplit⟩ := stripChars_split (slice text w)
  refine ⟨c, ?_, ?_⟩
  · have hhead : (slice text w)[((slice text w).takeWhile isSpace).length]? = some c := by
      calc (slice text w)[((slice text w).takeWhile isSpace).length]?
          = ((slice text w).takeWhile isSpace ++ (stripChars (slice text w) ++ trail))[
              ((slice text w).takeWhile isSpace).length]? := by rw [← hsplit]
        _ = some c := by
          rw [List.getElem?_append_right (Nat.le_refl _), Nat.sub_self, hchunk]
          rfl
    rw [slice, List.getElem?_drop, List.getElem?_take] at hhead
    split at hhead
    next => exact hhead
    next => cases hhead
  · have hfirst : ((slice text w).dropWhile isSpace).head? = some c := by
      have hdrop : (slice text w).dropWhile isSpace = stripChars (slice text w) ++ trail := by
        have hboth : (slice text w).takeWhile isSpace ++ (slice text w).dropWhile isSpace =
            (slice text w).takeWhile isSpace ++ (stripChars (slice text w) ++ trail) := by
          rw [List.takeWhile_append_dropWhile, ← hsplit]
        exact List.append_cancel_left hboth
      rw [hdrop, hchunk]
      rfl
    have hnot := List.head?_dropWhile_not isSpace (slice text w)
    rw [hfirst] at hnot
    exact hnot

/-- A later window has no earlier chunk. -/
theorem stripped_mono {w w' : Nat × Nat} (hw : w.2 ≤ text.length) (h : w.1 ≤ w.2)
    (hnext : w.1 < w'.1) (hne : stripChars (slice text w') ≠ []) :
    (stripped text w).1 ≤ (stripped text w').1 := by
  by_contra hbefore
  obtain ⟨c, hc, hnot⟩ := stripped_head hne
  have hlow : w'.1 ≤ (stripped text w').1 := Nat.le_add_right _ _
  obtain ⟨-, hend⟩ := stripped_le h hw
  have hspan : (stripped text w).1 ≤ (stripped text w).2 := Nat.le_add_right _ _
  -- The character would be one of the blanks before the earlier chunk.
  have hblank := isSpace_outside (by omega) (by omega) hc (.inl (Nat.lt_of_not_le hbefore))
  rw [hnot] at hblank
  cases hblank

end Stripping

/-! ## The chunks of a text -/

/-- What is to hold of the windows on a text and of its chunks. -/
structure Covering (text : List Char) (maxChars overlapChars : Nat)
    (windows : List (Nat × Nat)) (chunks : List String) : Prop where
  /-- The chunks are parts of the text, one for each window that is not blank. -/
  parts : chunks = (spans text windows).map fun s => String.ofList (slice text s)
  nonempty : ∀ s ∈ spans text windows, s.1 < s.2 ∧ s.2 ≤ text.length
  short : ∀ chunk ∈ chunks, chunk.length ≤ maxChars
  ordered : (spans text windows).Pairwise fun s t => s.1 ≤ t.1
  covered : ∀ i c, text[i]? = some c → isSpace c = false →
    ∃ s ∈ spans text windows, s.1 ≤ i ∧ i < s.2
  /-- A window starts no more than the overlap before the end of an earlier one. -/
  overlap : windows.Pairwise fun w w' => w.1 < w'.1 ∧ w.2 ≤ w'.1 + overlapChars
  rounds : windows.length ≤ text.length

theorem chunksFrom_eq (text : List Char) (maxChars overlapChars start : Nat)
    (chunks : List (List Char)) :
    chunksFrom text maxChars overlapChars start chunks = chunks ++
      ((windowsFrom text maxChars overlapChars start).map fun w =>
        stripChars (slice text w)).filter (· ≠ []) := by
  fun_induction chunksFrom text maxChars overlapChars start chunks with
  | case1 start chunks hstart chunk chunks' hfinish =>
      rw [windowsFrom_of_lt hstart, if_pos hfinish, List.map_cons, List.map_nil]
      show (if chunk = [] then chunks else chunks ++ [chunk]) = chunks ++ [chunk].filter (· ≠ [])
      by_cases hblank : chunk = []
      · simp [hblank]
      · simp [hblank]
  | case2 start chunks hstart chunk chunks' hfinish ih =>
      rw [ih, windowsFrom_of_lt hstart, if_neg hfinish, List.map_cons]
      show (if chunk = [] then chunks else chunks ++ [chunk]) ++ _ =
        chunks ++ (chunk :: _).filter (· ≠ [])
      by_cases hblank : chunk = []
      · simp [hblank]
      · simp [hblank]
  | case3 start chunks hstart =>
      rw [windowsFrom, if_neg hstart]
      simp

/-- A chunk is the part of the text that is left of its window. -/
theorem chunks_eq_spans {text : List Char} {windows : List (Nat × Nat)}
    (hwindows : ∀ w ∈ windows, w.1 < w.2 ∧ w.2 ≤ text.length) :
    (windows.map fun w => stripChars (slice text w)).filter (· ≠ []) =
      (spans text windows).map (slice text) := by
  rw [spans, List.filter_map, List.map_map]
  apply List.map_congr_left
  intro w hw
  obtain ⟨hpos, hlength⟩ := hwindows w (List.mem_filter.mp hw).1
  exact (slice_stripped (Nat.le_of_lt hpos) hlength).symm

section Spans

variable {text : List Char} {windows : List (Nat × Nat)}

/-- A span is the chunk of a window. -/
theorem exists_window {s : Nat × Nat} (h : s ∈ spans text windows) :
    ∃ w ∈ windows, stripChars (slice text w) ≠ [] ∧ stripped text w = s := by
  obtain ⟨w, hw, hspan⟩ := List.mem_map.mp h
  obtain ⟨hmem, hne⟩ := List.mem_filter.mp hw
  exact ⟨w, hmem, by simpa using hne, hspan⟩

theorem spans_ordered (hwindows : ∀ w ∈ windows, w.1 < w.2 ∧ w.2 ≤ text.length)
    (hlater : windows.Pairwise fun w w' => w.1 < w'.1) :
    (spans text windows).Pairwise fun s t => s.1 ≤ t.1 := by
  rw [spans, List.pairwise_map]
  refine (hlater.sublist List.filter_sublist).imp_of_mem ?_
  intro w w' hw hw' hnext
  obtain ⟨hpos, hlength⟩ := hwindows w (List.mem_filter.mp hw).1
  have hne : stripChars (slice text w') ≠ [] := by simpa using (List.mem_filter.mp hw').2
  exact stripped_mono hlength (Nat.le_of_lt hpos) hnext hne

/-- A character that is not blank is in the chunk of each window it is in. -/
theorem spans_cover {w : Nat × Nat} {i : Nat} {c : Char} (hw : w ∈ windows) (hlow : w.1 ≤ i)
    (hhigh : i < w.2) (hc : text[i]? = some c) (hnot : isSpace c = false) :
    ∃ s ∈ spans text windows, s.1 ≤ i ∧ i < s.2 := by
  have hin : (stripped text w).1 ≤ i ∧ i < (stripped text w).2 := by
    -- What is outside the chunk is blank.
    by_contra hout
    have hblank := isSpace_outside hlow hhigh hc (by omega)
    rw [hnot] at hblank
    cases hblank
  refine ⟨stripped text w, List.mem_map_of_mem (List.mem_filter.mpr ⟨hw, ?_⟩), hin⟩
  rw [decide_eq_true_eq]
  intro hempty
  simp only [stripped, hempty, List.length_nil] at hin
  omega

end Spans

/-- The chunks are the parts of the text that are left of the windows. -/
theorem chunkText_parts (text : String) {maxChars overlapChars : Int} (hmax : 256 ≤ maxChars)
    (hoverlap : 0 ≤ overlapChars) (hless : overlapChars < maxChars) :
    chunkText text maxChars overlapChars = .ok ((spans (normalized text)
      (windowsFrom (normalized text) maxChars.toNat overlapChars.toNat 0)).map
        fun s => String.ofList (slice (normalized text) s)) := by
  have hinside : ∀ w ∈ windowsFrom (normalized text) maxChars.toNat overlapChars.toNat 0,
      w.1 < w.2 ∧ w.2 ≤ (normalized text).length := by
    intro w hw
    obtain ⟨-, hlow, hhigh, -⟩ := windows_bounds (by omega) 0 w hw
    exact ⟨hlow, hhigh⟩
  rw [chunkText, if_neg (by omega), chunksFrom_eq, List.nil_append, chunks_eq_spans hinside,
    List.map_map]
  rfl

/-- **`chunk_text`** covers its text. -/
theorem chunkText_covering (text : String) (maxChars overlapChars : Int) (hmax : 256 ≤ maxChars)
    (hoverlap : 0 ≤ overlapChars) (hless : overlapChars < maxChars) :
    ∃ chunks, chunkText text maxChars overlapChars = .ok chunks ∧
      Covering (normalized text) maxChars.toNat overlapChars.toNat
        (windowsFrom (normalized text) maxChars.toNat overlapChars.toNat 0) chunks := by
  have hpos : 0 < maxChars.toNat := by omega
  have hbounds : ∀ w ∈ windowsFrom (normalized text) maxChars.toNat overlapChars.toNat 0,
      0 ≤ w.1 ∧ w.1 < w.2 ∧ w.2 ≤ (normalized text).length ∧ w.2 ≤ w.1 + maxChars.toNat :=
    windows_bounds hpos 0
  have hinside : ∀ w ∈ windowsFrom (normalized text) maxChars.toNat overlapChars.toNat 0,
      w.1 < w.2 ∧ w.2 ≤ (normalized text).length :=
    fun w hw => ⟨(hbounds w hw).2.1, (hbounds w hw).2.2.1⟩
  have hpairs : (windowsFrom (normalized text) maxChars.toNat overlapChars.toNat 0).Pairwise
      fun w w' => w.1 < w'.1 ∧ w.2 ≤ w'.1 + overlapChars.toNat := windows_pairwise hpos 0
  refine ⟨_, chunkText_parts text hmax hoverlap hless, rfl, ?_, ?_, ?_, ?_, hpairs, ?_⟩
  · intro s hs
    obtain ⟨w, hw, hne, rfl⟩ := exists_window hs
    obtain ⟨-, hend⟩ := stripped_le (Nat.le_of_lt (hinside w hw).1) (hinside w hw).2
    have hlength : 0 < (stripChars (slice (normalized text) w)).length :=
      List.length_pos_of_ne_nil hne
    exact ⟨Nat.lt_add_of_pos_right hlength, Nat.le_trans hend (hinside w hw).2⟩
  · intro chunk hchunk
    obtain ⟨s, hs, rfl⟩ := List.mem_map.mp hchunk
    obtain ⟨w, hw, -, rfl⟩ := exists_window hs
    obtain ⟨-, hlow, hhigh, hshort⟩ := hbounds w hw
    obtain ⟨hstart, hend⟩ := stripped_le (Nat.le_of_lt hlow) hhigh
    rw [String.length_ofList, length_slice (Nat.le_trans hend hhigh)]
    omega
  · exact spans_ordered hinside (hpairs.imp fun h => h.1)
  · intro i c hc hnot
    obtain ⟨hi, -⟩ := List.getElem?_eq_some_iff.mp hc
    obtain ⟨w, hw, hlow, hhigh⟩ := windows_cover hpos 0 i (Nat.zero_le i) hi
    exact spans_cover hw hlow hhigh hc hnot
  · have hrounds : (windowsFrom (normalized text) maxChars.toNat overlapChars.toNat 0).length ≤
        (normalized text).length - 0 := windows_length 0
    rwa [Nat.sub_zero] at hrounds

/-- A text that needs several windows. -/
def longText : String :=
  String.ofList (List.replicate 300 'a' ++ ' ' :: List.replicate 300 'b')

theorem chunkText_covering_longText :
    ∃ chunks, chunkText longText 256 32 = .ok chunks ∧
      Covering (normalized longText) 256 32 (windowsFrom (normalized longText) 256 32 0) chunks :=
  chunkText_covering longText 256 32 (by decide) (by decide) (by decide)

end Knowledge
end HermesPlatform
