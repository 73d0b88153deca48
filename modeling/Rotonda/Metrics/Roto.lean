import Mathlib.Data.Char
import Mathlib.Data.List.Lex
import Mathlib.Data.List.Perm.Basic
import Mathlib.Data.List.TakeWhile
import Rotonda.Lib.Text

/-!
The text for the metrics that roto scripts define.

A script names its counters and gauges as it likes, labels included, and the name is all there is:
what stands before the first brace is taken for the name of the family.  The entries are sorted by
name, and a TYPE line is written where a family is first met.

* `Metrics.append`: the text;
* `Grouped`: every family has one TYPE line, with all its samples right behind;
* `between_of_base`: what a sorted list can have between two samples of a family;
* `grouped_iff`: the collections of metrics for which the text is grouped.
-/

namespace Rotonda.Roto

open Lib Lib.Text List

/-! ## The text -/

/-- The two hash maps, in the order in which they are iterated. -/
structure Metrics where
  counters : List (Text × UInt64)
  gauges : List (Text × UInt64)
  counters_nodup : (counters.map Prod.fst).Nodup
  gauges_nodup : (gauges.map Prod.fst).Nodup

def baseName (name : Text) : Text := name.takeWhile (· ≠ '{')

def display (value : UInt64) : Text := Nat.toDigits 10 value.toNat

def userDefined : Text := "roto_user_defined_".toList

def sampleLine (e : Text × UInt64) : Text := userDefined ++ e.1 ++ ' ' :: display e.2

def typeMark : Text := "# TYPE ".toList

def typeLine (family typeWord : Text) : Text := typeMark ++ family ++ ' ' :: typeWord

def counterType (base : Text) : Text := typeLine (userDefined ++ base) "counter".toList

/-- The TYPE line of gauges does not have the family name of their samples. -/
def gaugeType (base : Text) : Text := typeLine base "gauge".toList

/-- The loop over counters or gauges, with the names whose TYPE line is printed. -/
def appendAll (typeOf : Text → Text) : List (Text × UInt64) → List Text → List Text
  | [], _ => []
  | e :: es, printed =>
    if baseName e.1 ∈ printed then sampleLine e :: appendAll typeOf es printed
    else typeOf (baseName e.1) :: sampleLine e ::
      appendAll typeOf es (printed ++ [baseName e.1])

def sortByName (es : List (Text × UInt64)) : List (Text × UInt64) :=
  es.mergeSort fun a b => a.1 ≤ b.1

def appendRaw (target raw : Text) : Text := target ++ (raw ++ ['\n'])

namespace Metrics

/-- What is appended, call by call. -/
def raws (m : Metrics) : List Text :=
  appendAll counterType (sortByName m.counters) [] ++ appendAll gaugeType (sortByName m.gauges) []

def append (m : Metrics) (target : Text) : Text := m.raws.foldl appendRaw target

def entries (m : Metrics) : List (Text × UInt64) := m.counters ++ m.gauges

end Metrics

/-! ## Families in a text -/

def typeWords : List Text :=
  ["counter".toList, "gauge".toList, "histogram".toList, "summary".toList, "untyped".toList]

def IsTypeOf (family l : Text) : Prop := ∃ w ∈ typeWords, l = typeLine family w

def IsSampleOf (family l : Text) : Prop :=
  ∃ name value, l = name ++ ' ' :: display value ∧ baseName name = family

/-- The family has one TYPE line, and all its samples follow it. -/
def Groups (m : Metrics) (ls : List Text) (base : Text) : Prop :=
  ∃ (pre post : List Text) (w : Text) (samples : List (Text × UInt64)), w ∈ typeWords ∧
    ls = pre ++ typeLine (userDefined ++ base) w :: (samples.map sampleLine ++ post) ∧
    samples.Perm (m.entries.filter fun e => baseName e.1 = base) ∧
    ∀ l ∈ pre ++ post, ¬ IsTypeOf (userDefined ++ base) l ∧ ¬ IsSampleOf (userDefined ++ base) l

/-- The text is grouped by families. -/
def Grouped (m : Metrics) : Prop := ∀ e ∈ m.entries, Groups m (lines (m.append [])) (baseName e.1)

/-- There are no gauges, names fit a line, and no name that extends another by a character before
the brace is there when that other name has a sample without and one with labels. -/
structure Groupable (m : Metrics) : Prop where
  noGauges : m.gauges = []
  oneLine : ∀ e ∈ m.counters, '\n' ∉ e.1
  apart : ∀ base label c rest, '{' ∉ base → base ∈ m.counters.map Prod.fst →
    base ++ '{' :: label ∈ m.counters.map Prod.fst → base ++ c :: rest ∈ m.counters.map Prod.fst →
    ¬ c < '{'

/-! ## Names -/

variable {base : Text}

theorem baseName_eq_self (h : '{' ∉ base) : baseName base = base := by
  rw [baseName, takeWhile_eq_self_iff]
  intro c hc
  simp only [decide_eq_true_eq]
  rintro rfl
  exact h hc

theorem baseName_append (h : '{' ∉ base) (rest : Text) :
    baseName (base ++ rest) = base ++ baseName rest := by
  rw [baseName, takeWhile_append_of_pos, baseName]
  intro c hc
  simp only [decide_eq_true_eq]
  rintro rfl
  exact h hc

variable (name : Text)

theorem brace_not_mem_baseName : '{' ∉ baseName name := by
  intro h
  have := mem_takeWhile_imp h
  simp at this

/-- A name is its base, alone or with labels. -/
theorem eq_baseName_or :
    name = baseName name ∨ ∃ label, name = baseName name ++ '{' :: label := by
  induction name with
  | nil => exact .inl rfl
  | cons c name ih =>
    by_cases hc : c = '{'
    · exact .inr ⟨name, by simp [baseName, hc]⟩
    · have hcons : baseName (c :: name) = c :: baseName name := by simp [baseName, hc]
      rw [hcons]
      rcases ih with ih | ⟨label, ih⟩
      · exact .inl (congrArg (c :: ·) ih)
      · exact .inr ⟨label, congrArg (c :: ·) ih⟩

theorem baseName_userDefined :
    baseName (userDefined ++ name) = userDefined ++ baseName name :=
  baseName_append (by decide) name

theorem not_mem_display {c : Char} (hc : c.isDigit = false) (value : UInt64) :
    c ∉ display value := by
  intro h
  rw [Nat.isDigit_of_mem_toDigits (by decide) (by decide) h] at hc
  cases hc

variable {e : Text × UInt64}

/-- A sample line gives away the name. -/
theorem eq_of_sampleLine_eq {name : Text} {value : UInt64}
    (h : sampleLine e = name ++ ' ' :: display value) : userDefined ++ e.1 = name :=
  (append_cons_inj (not_mem_display (by decide) _) (not_mem_display (by decide) _) h).1

theorem cons_le_cons_iff {c d : Char} {u v : Text} : c :: u ≤ d :: v ↔ c < d ∨ c = d ∧ u ≤ v := by
  rw [le_iff_lt_or_eq, le_iff_lt_or_eq, cons_lt_cons_iff, List.cons.injEq, and_or_left, or_assoc]

theorem not_cons_le_nil (c : Char) (u : Text) : ¬ c :: u ≤ [] :=
  not_le_of_gt (nil_lt_cons c u)

theorem le_of_append_le {u v : Text} (h : base ++ u ≤ base ++ v) : u ≤ v := by
  induction base with
  | nil => exact h
  | cons c base ih =>
    rw [cons_append, cons_append, cons_le_cons_iff] at h
    rcases h with h | h
    · exact absurd h (lt_irrefl c)
    · exact ih h.2

/-- What stands between two texts with a common beginning has it too. -/
theorem append_of_between {u y w : Text} (hu : base ++ u ≤ y) (hw : y ≤ base ++ w) :
    ∃ v, y = base ++ v ∧ u ≤ v ∧ v ≤ w := by
  induction base generalizing y with
  | nil => exact ⟨y, rfl, hu, hw⟩
  | cons c base ih =>
    cases y with
    | nil => exact absurd hu (not_cons_le_nil c _)
    | cons d y =>
      rw [cons_append, cons_le_cons_iff] at hu hw
      obtain rfl : c = d := by
        rcases hu with hu | hu
        · rcases hw with hw | hw
          · exact absurd (lt_trans hu hw) (lt_irrefl _)
          · exact hw.1.symm
        · exact hu.1
      simp only [lt_irrefl, true_and, false_or] at hu hw
      obtain ⟨v, rfl, huv, hvw⟩ := ih hu hw
      exact ⟨v, rfl, huv, hvw⟩

/-- What stands, in the order of names, between two names of one family and is of another. -/
theorem between_of_base {x y z : Text} (hxy : x ≤ y) (hyz : y ≤ z) (hx : baseName x = base)
    (hz : baseName z = base) (hy : baseName y ≠ base) :
    x = base ∧ (∃ label, z = base ++ '{' :: label) ∧ ∃ c rest, y = base ++ c :: rest ∧ c < '{' := by
  have hbase : '{' ∉ base := hx ▸ brace_not_mem_baseName x
  have hx' := eq_baseName_or x
  have hz' := eq_baseName_or z
  rw [hx] at hx'
  rw [hz] at hz'
  have hform {x : Text} : (x = base ∨ ∃ label, x = base ++ '{' :: label) → ∃ u, x = base ++ u := by
    rintro (h | ⟨label, h⟩)
    · exact ⟨[], by simpa using h⟩
    · exact ⟨_, h⟩
  obtain ⟨u, hu⟩ := hform hx'
  obtain ⟨w, hw⟩ := hform hz'
  obtain ⟨v, rfl, huv, hvw⟩ := append_of_between (hu ▸ hxy) (hw ▸ hyz)
  rw [baseName_append hbase] at hy
  cases v with
  | nil => simp [baseName] at hy
  | cons c rest =>
    have hc : c ≠ '{' := by
      rintro rfl
      simp [baseName] at hy
    rcases hz' with hz' | ⟨label, hz'⟩
    · -- nothing stands between a name and itself
      obtain rfl : w = [] := by simpa [hz'] using hw
      exact absurd hvw (not_cons_le_nil c rest)
    · obtain rfl : w = '{' :: label := append_cancel_left (hw.symm.trans hz')
      have hlt : c < '{' := by
        rcases cons_le_cons_iff.mp hvw with h | h
        · exact h
        · exact absurd h.1 hc
      refine ⟨?_, ⟨label, hz'⟩, c, rest, rfl, hlt⟩
      rcases hx' with hx' | ⟨label', hx'⟩
      · exact hx'
      · obtain rfl : u = '{' :: label' := append_cancel_left (hu.symm.trans hx')
        rcases cons_le_cons_iff.mp huv with h | h
        · exact absurd (lt_trans h hlt) (lt_irrefl _)
        · exact absurd h.1.symm hc

/-! ## The loop -/

section Loop

variable {typeOf : Text → Text} {es : List (Text × UInt64)} {printed : List Text}

/-- The names whose TYPE line is printed after the loop. -/
def printedAfter (es : List (Text × UInt64)) (printed : List Text) : List Text :=
  es.foldl (fun printed e =>
    if baseName e.1 ∈ printed then printed else printed ++ [baseName e.1]) printed

theorem mem_printedAfter (es : List (Text × UInt64)) (printed : List Text) :
    base ∈ printedAfter es printed ↔ base ∈ printed ∨ ∃ e ∈ es, baseName e.1 = base := by
  induction es generalizing printed with
  | nil => simp [printedAfter]
  | cons e es ih =>
    rw [printedAfter, foldl_cons, ← printedAfter, ih]
    by_cases h : baseName e.1 ∈ printed
    · simp only [if_pos h, mem_cons, exists_eq_or_imp]
      constructor
      · rintro (hmem | hmem)
        · exact .inl hmem
        · exact .inr (.inr hmem)
      · rintro (hmem | rfl | hmem)
        · exact .inl hmem
        · exact .inl h
        · exact .inr hmem
    · simp only [if_neg h, mem_append, mem_cons, not_mem_nil, or_false, exists_eq_or_imp, or_assoc]
      rw [@eq_comm _ base]

theorem appendAll_append (es es' : List (Text × UInt64)) (printed : List Text) :
    appendAll typeOf (es ++ es') printed =
      appendAll typeOf es printed ++ appendAll typeOf es' (printedAfter es printed) := by
  induction es generalizing printed with
  | nil => rfl
  | cons e es ih =>
    rw [cons_append, appendAll, appendAll, printedAfter, foldl_cons, ← printedAfter]
    by_cases h : baseName e.1 ∈ printed
    · rw [if_pos h, if_pos h, if_pos h, ih, cons_append]
    · rw [if_neg h, if_neg h, if_neg h, ih, cons_append, cons_append]

/-- Entries of a family whose TYPE line is printed. -/
theorem appendAll_of_printed (hprinted : base ∈ printed)
    (hes : ∀ e ∈ es, baseName e.1 = base) : appendAll typeOf es printed = es.map sampleLine := by
  induction es with
  | nil => rfl
  | cons e es ih =>
    have he : baseName e.1 ∈ printed := by
      rw [hes e mem_cons_self]
      exact hprinted
    rw [appendAll, if_pos he, ih fun e' he' => hes e' (mem_cons_of_mem e he'), map_cons]

/-- The first entries of a family. -/
theorem appendAll_of_not_printed (hprinted : base ∉ printed) (hne : es ≠ [])
    (hes : ∀ e ∈ es, baseName e.1 = base) :
    appendAll typeOf es printed = typeOf base :: es.map sampleLine := by
  cases es with
  | nil => exact absurd rfl hne
  | cons e es =>
    have he := hes e mem_cons_self
    have hrest : appendAll typeOf es (printed ++ [base]) = es.map sampleLine :=
      appendAll_of_printed (by simp) fun e' he' => hes e' (mem_cons_of_mem e he')
    rw [appendAll, he, if_neg hprinted, map_cons, hrest]

theorem mem_appendAll {l : Text} (h : l ∈ appendAll typeOf es printed) :
    ∃ e ∈ es, l = typeOf (baseName e.1) ∨ l = sampleLine e := by
  induction es generalizing printed with
  | nil => cases h
  | cons e es ih =>
    have hrest : ∀ printed', l ∈ appendAll typeOf es printed' →
        ∃ e' ∈ e :: es, l = typeOf (baseName e'.1) ∨ l = sampleLine e' := by
      intro printed' h
      obtain ⟨e', he', hl⟩ := ih h
      exact ⟨e', mem_cons_of_mem e he', hl⟩
    rw [appendAll] at h
    by_cases hp : baseName e.1 ∈ printed
    · rw [if_pos hp] at h
      rcases mem_cons.mp h with rfl | h
      · exact ⟨e, mem_cons_self, .inr rfl⟩
      · exact hrest _ h
    · rw [if_neg hp] at h
      rcases mem_cons.mp h with rfl | h
      · exact ⟨e, mem_cons_self, .inl rfl⟩
      · rcases mem_cons.mp h with rfl | h
        · exact ⟨e, mem_cons_self, .inr rfl⟩
        · exact hrest _ h

/-- An entry is printed, perhaps after its TYPE line. -/
theorem appendAll_cons (e : Text × UInt64) (es : List (Text × UInt64)) (printed : List Text) :
    ∃ mark printed', appendAll typeOf (e :: es) printed =
      mark ++ sampleLine e :: appendAll typeOf es printed' := by
  rw [appendAll]
  by_cases hp : baseName e.1 ∈ printed
  · exact ⟨[], printed, by rw [if_pos hp]; rfl⟩
  · exact ⟨[typeOf (baseName e.1)], printed ++ [baseName e.1], by rw [if_neg hp]; rfl⟩

theorem sampleLine_mem_appendAll (h : e ∈ es) (printed : List Text) :
    sampleLine e ∈ appendAll typeOf es printed := by
  obtain ⟨pre, post, rfl⟩ := append_of_mem h
  obtain ⟨mark, printed', hcons⟩ := @appendAll_cons typeOf e post (printedAfter pre printed)
  rw [appendAll_append, hcons]
  simp

end Loop

theorem foldl_appendRaw (target : Text) (raws : List Text) :
    raws.foldl appendRaw target = target ++ unlines raws := by
  induction raws generalizing target with
  | nil => simp [unlines]
  | cons raw raws ih =>
    rw [foldl_cons, ih, appendRaw, unlines, unlines, flatMap_cons, append_assoc]

/-! ## Lines and families -/

theorem head?_userDefined (rest : Text) : (userDefined ++ rest).head? = some 'r' := by
  have hcons : userDefined = 'r' :: "oto_user_defined_".toList := rfl
  rw [hcons, cons_append, List.head?_cons]

theorem head?_sampleLine (e : Text × UInt64) : (sampleLine e).head? = some 'r' := by
  rw [sampleLine, append_assoc, head?_userDefined]

theorem head?_typeLine (family w : Text) : (typeLine family w).head? = some '#' := by
  have hcons : typeMark = '#' :: " TYPE ".toList := rfl
  rw [typeLine, hcons, cons_append, cons_append, List.head?_cons]

theorem not_isTypeOf_sampleLine (family : Text) (e : Text × UInt64) :
    ¬ IsTypeOf family (sampleLine e) := by
  rintro ⟨w, _, h⟩
  have hhead := head?_sampleLine e
  rw [h, head?_typeLine] at hhead
  cases hhead

theorem isSampleOf_sampleLine_iff :
    IsSampleOf (userDefined ++ base) (sampleLine e) ↔ baseName e.1 = base := by
  constructor
  · rintro ⟨name, value, h, hname⟩
    rw [← eq_of_sampleLine_eq h, baseName_userDefined] at hname
    exact append_cancel_left hname
  · intro h
    exact ⟨userDefined ++ e.1, e.2, rfl, by rw [baseName_userDefined, h]⟩

theorem isTypeOf_typeLine_iff {family family' w : Text} (hw : w ∈ typeWords) :
    IsTypeOf family (typeLine family' w) ↔ family' = family := by
  have hblank : ∀ w ∈ typeWords, ' ' ∉ w := by decide
  constructor
  · rintro ⟨w', hw', h⟩
    have hinj := (append_cons_inj (hblank w hw) (hblank w' hw') h).1
    exact append_cancel_left hinj
  · rintro rfl
    exact ⟨w, hw, rfl⟩

theorem not_isSampleOf_typeLine (base family w : Text) :
    ¬ IsSampleOf (userDefined ++ base) (typeLine family w) := by
  rintro ⟨name, value, h, hname⟩
  have hhead := head?_typeLine family w
  have hbase := head?_userDefined base
  rw [h] at hhead
  rw [← hname] at hbase
  cases name with
  | nil => cases hhead
  | cons c name =>
    cases hhead
    cases hbase

/-! ## One line per call -/

theorem newline_not_mem_baseName {name : Text} (h : '\n' ∉ name) : '\n' ∉ baseName name :=
  fun hmem => h ((List.takeWhile_prefix _).subset hmem)

theorem newline_not_mem_typeLine {family w : Text} (hw : w ∈ typeWords) (h : '\n' ∉ family) :
    '\n' ∉ typeLine family w := by
  have hwords : ∀ w ∈ typeWords, '\n' ∉ w := by decide
  have hmark : '\n' ∉ typeMark := by decide
  simp [typeLine, hmark, h, hwords w hw]

theorem newline_mem_sampleLine_iff (e : Text × UInt64) : '\n' ∈ sampleLine e ↔ '\n' ∈ e.1 := by
  have hmark : '\n' ∉ userDefined := by decide
  have hvalue : '\n' ∉ display e.2 := not_mem_display (by decide) _
  simp [sampleLine, hmark, hvalue]

variable (es : List (Text × UInt64))

theorem perm_sortByName : (sortByName es).Perm es :=
  mergeSort_perm es _

theorem sorted_sortByName :
    (sortByName es).Pairwise fun a b => a.1 ≤ b.1 := by
  have hsorted := @pairwise_mergeSort (Text × UInt64) (fun a b => decide (a.1 ≤ b.1))
    (fun a b c hab hbc => by
      simp only [decide_eq_true_eq] at *
      exact le_trans hab hbc)
    (fun a b => by simpa using le_total a.1 b.1) es
  simpa [sortByName] using hsorted

variable {m : Metrics}

/-- If the names fit a line, the lines of the text are those of the calls. -/
theorem lines_append (h : ∀ e ∈ m.entries, '\n' ∉ e.1) : lines (m.append []) = m.raws := by
  rw [Metrics.append, foldl_appendRaw, nil_append]
  refine lines_unlines fun l hl => ?_
  have hkind : ∀ (es : List (Text × UInt64)) (typeOf : Text → Text), (∀ e ∈ es, e ∈ m.entries) →
      (∀ base, '\n' ∉ base → '\n' ∉ typeOf base) → l ∈ appendAll typeOf (sortByName es) [] →
        '\n' ∉ l := by
    intro es typeOf hes htype hl
    obtain ⟨e, he, hl⟩ := mem_appendAll hl
    have hname := h e (hes e ((perm_sortByName es).subset he))
    rcases hl with rfl | rfl
    · exact htype _ (newline_not_mem_baseName hname)
    · rwa [newline_mem_sampleLine_iff]
  have hmark : '\n' ∉ userDefined := by decide
  rcases mem_append.mp hl with hl | hl
  · refine hkind _ _ (fun e he => mem_append_left _ he) (fun base hbase => ?_) hl
    exact newline_not_mem_typeLine (by simp [typeWords]) (by simp [hmark, hbase])
  · refine hkind _ _ (fun e he => mem_append_right _ he) (fun base hbase => ?_) hl
    exact newline_not_mem_typeLine (by simp [typeWords]) hbase

/-! ## Grouped texts -/

/-- The entries of a family are in one piece. -/
theorem Groupable.split (h : Groupable m) (base : Text) :
    ∃ pre mid post, sortByName m.counters = pre ++ (mid ++ post) ∧
      (∀ e ∈ pre, baseName e.1 ≠ base) ∧ (∀ e ∈ mid, baseName e.1 = base) ∧
      ∀ e ∈ post, baseName e.1 ≠ base := by
  refine exists_split (sorted_sortByName m.counters) fun x hx y hy z hz hxy hyz hPx hPz => ?_
  by_contra hPy
  have hname : ∀ e ∈ sortByName m.counters, e.1 ∈ m.counters.map Prod.fst := fun e he =>
    mem_map_of_mem ((perm_sortByName _).subset he)
  obtain ⟨hbase, ⟨label, hlabel⟩, c, rest, hrest, hlt⟩ := between_of_base hxy hyz hPx hPz hPy
  exact h.apart base label c rest (hPx ▸ brace_not_mem_baseName _) (hbase ▸ hname x hx)
    (hlabel ▸ hname z hz) (hrest ▸ hname y hy) hlt

/-- The lines for entries of other families. -/
theorem other_of_mem_appendAll {es : List (Text × UInt64)} {printed : List Text} {l : Text}
    (hes : ∀ e ∈ es, baseName e.1 ≠ base) (h : l ∈ appendAll counterType es printed) :
    ¬ IsTypeOf (userDefined ++ base) l ∧ ¬ IsSampleOf (userDefined ++ base) l := by
  obtain ⟨e, he, rfl | rfl⟩ := mem_appendAll h
  · refine ⟨fun htype => hes e he ?_, not_isSampleOf_typeLine _ _ _⟩
    exact append_cancel_left ((isTypeOf_typeLine_iff (by simp [typeWords])).mp htype)
  · exact ⟨not_isTypeOf_sampleLine _ e, fun hsample => hes e he (isSampleOf_sampleLine_iff.mp hsample)⟩

theorem Groupable.grouped (h : Groupable m) : Grouped m := by
  have hentries : m.entries = m.counters := by rw [Metrics.entries, h.noGauges, append_nil]
  intro e he
  rw [lines_append fun e' he' => h.oneLine e' (hentries ▸ he')]
  obtain ⟨pre, mid, post, hsplit, hpre, hmid, hpost⟩ := h.split (baseName e.1)
  have hraws : m.raws = appendAll counterType (pre ++ (mid ++ post)) [] := by
    rw [Metrics.raws, h.noGauges, hsplit]
    simp [sortByName, appendAll]
  have hnot : baseName e.1 ∉ printedAfter pre [] := by
    rw [mem_printedAfter]
    rintro (hmem | ⟨e', he', heq⟩)
    · cases hmem
    · exact hpre e' he' heq
  have hne : mid ≠ [] := by
    rintro rfl
    rw [hentries] at he
    have hmem := (perm_sortByName m.counters).mem_iff.mpr he
    rw [hsplit, nil_append] at hmem
    rcases mem_append.mp hmem with hmem | hmem
    · exact hpre e hmem rfl
    · exact hpost e hmem rfl
  refine ⟨appendAll counterType pre [],
    appendAll counterType post (printedAfter mid (printedAfter pre [])), "counter".toList, mid,
    by simp [typeWords], ?_, ?_, fun l hl => ?_⟩
  · rw [hraws, appendAll_append, appendAll_append, appendAll_of_not_printed hnot hne hmid]
    rfl
  · have hfilter : (sortByName m.counters).filter (fun e' => baseName e'.1 = baseName e.1) = mid := by
      rw [hsplit, filter_append, filter_append, filter_eq_nil_iff.mpr,
        filter_eq_self.mpr, filter_eq_nil_iff.mpr]
      · simp
      · simpa using hpost
      · simpa using hmid
      · simpa using hpre
    rw [← hfilter, hentries]
    exact (perm_sortByName m.counters).filter _
  · rcases mem_append.mp hl with hl | hl
    · exact other_of_mem_appendAll hpre hl
    · exact other_of_mem_appendAll hpost hl

theorem Groups.block {ls : List Text} (h : Groups m ls base) :
    ∃ w ∈ typeWords, ∃ samples : List (Text × UInt64), Block (IsSampleOf (userDefined ++ base)) ls
        (typeLine (userDefined ++ base) w) (samples.map sampleLine) ∧
      samples.Perm (m.entries.filter fun e => baseName e.1 = base) := by
  obtain ⟨pre, post, w, samples, hw, hls, hperm, hother⟩ := h
  refine ⟨w, hw, samples, ⟨⟨pre, post, hls, ?_, ?_⟩, not_isSampleOf_typeLine _ _ _⟩, hperm⟩
  · intro l hl
    exact (hother l (mem_append_left _ hl)).2
  · intro l hl
    exact (hother l (mem_append_right _ hl)).2

/-- A name with a line break has no sample line. -/
theorem Grouped.oneLine (h : Grouped m) (he : e ∈ m.entries) : '\n' ∉ e.1 := by
  obtain ⟨pre, post, w, samples, _, hls, hperm, _⟩ := h e he
  have hmem : e ∈ samples := hperm.mem_iff.mpr (by simp [he])
  rw [← newline_mem_sampleLine_iff]
  refine not_mem_of_mem_lines (t := m.append []) ?_
  rw [hls]
  simp [mem_map_of_mem hmem]

theorem Grouped.groups (h : Grouped m) (he : e ∈ m.entries) : Groups m m.raws (baseName e.1) := by
  rw [← lines_append fun e he => h.oneLine he]
  exact h e he

/-- The line before the first gauge is not a TYPE line for it. -/
theorem Grouped.noGauges (h : Grouped m) : m.gauges = [] := by
  cases hg : sortByName m.gauges with
  | nil =>
    have hperm := perm_sortByName m.gauges
    rw [hg] at hperm
    exact hperm.nil_eq.symm
  | cons g gs =>
    exfalso
    have hmem : g ∈ m.entries :=
      mem_append_right _ ((perm_sortByName m.gauges).subset (by simp [hg]))
    obtain ⟨w, hw, samples, hblock, hperm⟩ := (h.groups hmem).block
    have hraws : m.raws = appendAll counterType (sortByName m.counters) [] ++
        gaugeType (baseName g.1) :: sampleLine g :: appendAll gaugeType gs [baseName g.1] := by
      rw [Metrics.raws, hg, appendAll, if_neg not_mem_nil]
      rfl
    rcases hblock.head_or_mem hraws (isSampleOf_sampleLine_iff.mpr rfl) with heq | hmem
    · have hfamily : IsTypeOf (userDefined ++ baseName g.1) (gaugeType (baseName g.1)) :=
        ⟨w, hw, heq⟩
      have hname := (isTypeOf_typeLine_iff (by simp [typeWords])).mp hfamily
      have hlength := congrArg List.length hname
      have hmark : userDefined.length = 18 := by decide
      rw [length_append] at hlength
      omega
    · obtain ⟨s, _, hs⟩ := mem_map.mp hmem
      exact not_isTypeOf_sampleLine (baseName g.1) s (hs ▸ ⟨_, by simp [typeWords], rfl⟩)

/-- A sample of another family would stand between samples of this one. -/
theorem Grouped.apart (h : Grouped m) {label rest : Text} {c : Char} (hbase : '{' ∉ base)
    (hplain : base ∈ m.counters.map Prod.fst)
    (hlabelled : base ++ '{' :: label ∈ m.counters.map Prod.fst)
    (hlonger : base ++ c :: rest ∈ m.counters.map Prod.fst) : ¬ c < '{' := by
  intro hc
  obtain ⟨x, hx, hxname⟩ := mem_map.mp hplain
  obtain ⟨z, hz, hzname⟩ := mem_map.mp hlabelled
  obtain ⟨y, hy, hyname⟩ := mem_map.mp hlonger
  have hsort := perm_sortByName m.counters
  obtain ⟨us, vs, hsplit⟩ := append_of_mem (hsort.mem_iff.mpr hy)
  have hsorted := sorted_sortByName m.counters
  rw [hsplit, pairwise_append, pairwise_cons] at hsorted
  obtain ⟨_, ⟨hafter, _⟩, hbefore⟩ := hsorted
  have hxus : x ∈ us := by
    have hmem := hsort.mem_iff.mpr hx
    rw [hsplit, mem_append, mem_cons] at hmem
    rcases hmem with hmem | rfl | hmem
    · exact hmem
    · rw [hxname] at hyname
      simp at hyname
    · have hle := hafter x hmem
      have hnil : x.1 = base ++ [] := by rw [hxname, append_nil]
      rw [hyname, hnil] at hle
      exact absurd (le_of_append_le hle) (not_cons_le_nil _ _)
  have hzvs : z ∈ vs := by
    have hmem := hsort.mem_iff.mpr hz
    rw [hsplit, mem_append, mem_cons] at hmem
    rcases hmem with hmem | rfl | hmem
    · have hle := hbefore z hmem y mem_cons_self
      rw [hzname, hyname] at hle
      rcases cons_le_cons_iff.mp (le_of_append_le hle) with hlt | heq
      · exact absurd (lt_trans hlt hc) (lt_irrefl _)
      · exact absurd (heq.1 ▸ hc) (lt_irrefl _)
    · rw [hzname] at hyname
      have heq := (List.cons.inj (append_cancel_left hyname)).1
      exact absurd (heq ▸ hc) (lt_irrefl _)
    · exact hmem
  have hxbase : baseName x.1 = base := by rw [hxname, baseName_eq_self hbase]
  have hzbase : baseName z.1 = base := by
    rw [hzname, baseName_append hbase]
    simp [baseName]
  have hybase : baseName y.1 ≠ base := by
    have hne : c ≠ '{' := by
      rintro rfl
      exact absurd hc (lt_irrefl _)
    rw [hyname, baseName_append hbase]
    simp [baseName, hne]
  obtain ⟨w, hw, samples, hblock, hperm⟩ := (h.groups (mem_append_left m.gauges hx)).block
  rw [hxbase] at hblock hperm
  obtain ⟨mark, printed, hcons⟩ := @appendAll_cons counterType y vs (printedAfter us [])
  have hraws : m.raws = (appendAll counterType us [] ++ mark) ++ sampleLine y ::
      (appendAll counterType vs printed ++ appendAll gaugeType (sortByName m.gauges) []) := by
    rw [Metrics.raws, hsplit, appendAll_append, hcons]
    simp
  have hmem := hblock.mem_of_between hraws
    (mem_append_left mark (sampleLine_mem_appendAll hxus []))
    (isSampleOf_sampleLine_iff.mpr hxbase)
    (mem_append_left _ (sampleLine_mem_appendAll hzvs printed))
    (isSampleOf_sampleLine_iff.mpr hzbase)
  obtain ⟨s, hs, hsline⟩ := mem_map.mp hmem
  have hsbase : baseName s.1 = base := by simpa using (mem_filter.mp (hperm.subset hs)).2
  have hline : IsSampleOf (userDefined ++ base) (sampleLine y) :=
    hsline ▸ isSampleOf_sampleLine_iff.mpr hsbase
  exact hybase (isSampleOf_sampleLine_iff.mp hline)

/-- The text is grouped by families exactly for the collections that are groupable. -/
theorem grouped_iff (m : Metrics) : Grouped m ↔ Groupable m := by
  constructor
  · intro h
    refine ⟨h.noGauges, fun e he => h.oneLine (mem_append_left _ he), ?_⟩
    intro base label c rest hbase hplain hlabelled hlonger
    exact h.apart hbase hplain hlabelled hlonger
  · intro h
    exact h.grouped

def oneGauge : Metrics where
  counters := []
  gauges := [("x".toList, 1)]
  counters_nodup := by simp
  gauges_nodup := by simp

/-- The TYPE line is for `x`, the sample is not. -/
theorem gauge_not_grouped :
    lines (oneGauge.append []) = ["# TYPE x gauge".toList, "roto_user_defined_x 1".toList] ∧
      ¬ Grouped oneGauge := by
  refine ⟨?_, fun h => ?_⟩
  · rw [lines_append (by decide)]
    simp only [Metrics.raws, oneGauge, sortByName, mergeSort_nil, mergeSort_singleton]
    decide
  · cases h.noGauges

end Rotonda.Roto
