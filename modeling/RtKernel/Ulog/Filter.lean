import Mathlib.Data.List.Infix
import RtKernel.Core.Run
import RtKernel.Mem.Strings

/-!
# Filters of a log

`ulog_tag_lvl_filter_set` keeps a level for a tag, of which it knows the first characters only. Both
functions search the list with the lock taken; `ulog_init` has been called.
-/

open List Option

namespace RtKernel.Ulog

open Kservice.Chars

/-- `LOG_FILTER_LVL_ALL`. -/
def logFilterLvlAll : Nat := 7

/-- `ULOG_FILTER_TAG_MAX_LEN`. -/
def ulogFilterTagMaxLen : Nat := 23

/-- A string, without its end. -/
abbrev Text := { text : List UInt8 // 0 ∉ text }

/-- The memory of a string. -/
def Text.chars (tag : Text) : List UInt8 := tag.1 ++ [0]

/-- The array of a tag in a filter. -/
def tagArray (tag : Text) : List UInt8 := rtStrncpy tag.1 ulogFilterTagMaxLen ++ [0]

/-- `struct ulog_tag_lvl_filter`. -/
structure UlogTagLvlFilter where
  tag : List UInt8
  level : Nat

/-- `ulog.filter`, without the keyword. -/
structure UlogFilter where
  level : Nat
  tag : List UInt8
  tagLvlList : List UlogTagLvlFilter

/-- The list of `ulog_tag_lvl_filter_set` from where the search is, with the result; there is no
result where a tag is read behind its array. -/
def setLoop (tag : Text) (level : Nat) (malloc : Bool) :
    List UlogTagLvlFilter → Option (List UlogTagLvlFilter × Int)
  | [] =>
    if level = logFilterLvlAll then some ([], 0)
    else if malloc then some ([⟨tagArray tag, level⟩], 0)
    else some ([], -5)
  | e :: es =>
    (rtStrncmp e.tag tag.chars ulogFilterTagMaxLen).bind fun res =>
      if res = 0 then some (if level = logFilterLvlAll then es else { e with level } :: es, 0)
      else (setLoop tag level malloc es).map fun r => (e :: r.1, r.2)

/-- The loop of `ulog_tag_lvl_filter_get`. -/
def getLoop (tag : Text) : List UlogTagLvlFilter → Option Nat
  | [] => some logFilterLvlAll
  | e :: es =>
    (rtStrncmp e.tag tag.chars ulogFilterTagMaxLen).bind fun res =>
      if res = 0 then some e.level else getLoop tag es

namespace UlogFilter

/-- `ulog_tag_lvl_filter_set`. -/
def tagLvlFilterSet (s : UlogFilter) (tag : Text) (level : Nat) (malloc : Bool) :
    Option (UlogFilter × Int) :=
  if level > logFilterLvlAll then some (s, -10)
  else (setLoop tag level malloc s.tagLvlList).map fun r => ({ s with tagLvlList := r.1 }, r.2)

/-- `ulog_tag_lvl_filter_get`. -/
def tagLvlFilterGet (s : UlogFilter) (tag : Text) : Option Nat := getLoop tag s.tagLvlList

/-- `ulog_global_filter_lvl_set`; there is no result where the assertion fails. -/
def globalFilterLvlSet (s : UlogFilter) (level : Nat) : Option UlogFilter :=
  if level ≤ logFilterLvlAll then some { s with level } else none

/-- `ulog_global_filter_tag_set`, which leaves the last byte of the array as it is. -/
def globalFilterTagSet (s : UlogFilter) (tag : Text) : UlogFilter :=
  { s with tag := rtStrncpy tag.1 ulogFilterTagMaxLen ++ s.tag.drop ulogFilterTagMaxLen }

/-- The filters of `ulog_voutput` for a level and a tag: whether it goes on. -/
def passes (s : UlogFilter) (level : Nat) (tag : Text) : Option Bool :=
  if level > s.level then some false
  else (s.tagLvlFilterGet tag).map fun tagLevel =>
    decide (level ≤ tagLevel) && rtStrstr tag.1 (s.tag.takeWhile (· ≠ 0))

end UlogFilter

/-- What has been asked for: the level, what a tag has to have inside, and the levels of tags by
their first characters. -/
structure Asked where
  level : Nat
  word : List UInt8
  levels : List UInt8 → Nat

/-- A level has been set for a tag with this result. -/
def Asked.tell (s : Asked) (tag : Text) (level : Nat) (res : Int) : Asked :=
  if res = 0 then
    { s with levels := Function.update s.levels (tag.1.take ulogFilterTagMaxLen) level }
  else s

/-- The filters, with what has been asked for. -/
structure Filtered where
  filter : UlogFilter
  asked : Asked

namespace Filtered

/-- What is called; `rt_malloc` has memory for an entry or not. -/
inductive Act
  | tagLvl (tag : Text) (level : Nat) (malloc : Bool)
  | globalLvl (level : Nat)
  | globalTag (tag : Text)

def exec (s : Filtered) : Act → Option Filtered
  | .tagLvl tag level malloc => (s.filter.tagLvlFilterSet tag level malloc).map fun r =>
    { filter := r.1, asked := s.asked.tell tag level r.2 }
  | .globalLvl level => (s.filter.globalFilterLvlSet level).map fun filter =>
    { filter, asked := { s.asked with level } }
  | .globalTag tag => some
    { filter := s.filter.globalFilterTagSet tag
      asked := { s.asked with word := tag.1.take ulogFilterTagMaxLen } }

def Step (s : Filtered) (a : Act) (s' : Filtered) : Prop := s.exec a = some s'

/-- After `ulog_init`. -/
def start : Filtered where
  filter := ⟨logFilterLvlAll, List.replicate (ulogFilterTagMaxLen + 1) 0, []⟩
  asked := ⟨logFilterLvlAll, [], fun _ => logFilterLvlAll⟩

/-- The filters do what has been asked for. -/
structure Kept (s : Filtered) : Prop where
  get : ∀ tag : Text, s.filter.tagLvlFilterGet tag = some (s.asked.levels (tag.1.take ulogFilterTagMaxLen))
  passes : ∀ level (tag : Text), s.filter.passes level tag = some (decide (level ≤ s.asked.level ∧
    level ≤ s.asked.levels (tag.1.take ulogFilterTagMaxLen) ∧ s.asked.word <:+: tag.1))
  tags : (s.filter.tagLvlList.map (·.tag)).Nodup
  levels : ∀ e ∈ s.filter.tagLvlList, e.level < logFilterLvlAll

end Filtered

theorem tagArray_eq (tag : Text) : tagArray tag = tag.1.take ulogFilterTagMaxLen ++
    0 :: List.replicate (ulogFilterTagMaxLen - tag.1.length) 0 := by
  rw [tagArray, rtStrncpy_eq, append_assoc, ← replicate_succ', replicate_succ]

theorem Text.take_ne (tag : Text) (n : Nat) : 0 ∉ tag.1.take n :=
  fun hmem => tag.2 (mem_of_mem_take hmem)

theorem string_tagArray (tag : Text) :
    (tagArray tag).takeWhile (· ≠ 0) = tag.1.take ulogFilterTagMaxLen := by
  have hne : ∀ c ∈ tag.1.take ulogFilterTagMaxLen, decide (c ≠ 0) = true :=
    fun c hc => decide_eq_true fun hno => tag.take_ne _ (hno ▸ hc)
  rw [tagArray_eq, takeWhile_append_of_pos hne]
  exact append_nil _

theorem tagArray_inj {a b : Text} :
    tagArray a = tagArray b ↔ a.1.take ulogFilterTagMaxLen = b.1.take ulogFilterTagMaxLen := by
  constructor
  · intro h
    rw [← string_tagArray, h, string_tagArray]
  · intro h
    have hlength := congrArg List.length h
    rw [length_take, length_take] at hlength
    have hzeros : ulogFilterTagMaxLen - a.1.length = ulogFilterTagMaxLen - b.1.length := by omega
    rw [tagArray_eq, tagArray_eq, h, hzeros]

theorem rtStrncmp_tagArray (t tag : Text) :
    ∃ res, rtStrncmp (tagArray t) tag.chars ulogFilterTagMaxLen = some res ∧
      (res = 0 ↔ tagArray t = tagArray tag) := by
  obtain ⟨res, hres, hiff⟩ := rtStrncmp_strings (t.take_ne ulogFilterTagMaxLen) tag.2
    (List.replicate (ulogFilterTagMaxLen - t.1.length) 0) [] ulogFilterTagMaxLen
  rw [← tagArray_eq] at hres
  refine ⟨res, hres, hiff.trans ?_⟩
  rw [take_take, Nat.min_self, tagArray_inj]

/-- The level that a list has for the array of a tag. -/
def look (arr : List UInt8) : List UlogTagLvlFilter → Nat
  | [] => logFilterLvlAll
  | e :: es => if e.tag = arr then e.level else look arr es

/-- The entries have tags that differ, and levels that filter something. -/
structure Entries (es : List UlogTagLvlFilter) : Prop where
  arrays : ∀ e ∈ es, ∃ t, e.tag = tagArray t
  nodup : (es.map (·.tag)).Nodup
  levels : ∀ e ∈ es, e.level < logFilterLvlAll

variable {es : List UlogTagLvlFilter}

theorem Entries.tail {e : UlogTagLvlFilter} (h : Entries (e :: es)) : Entries es :=
  ⟨fun x hx => h.arrays x (.tail _ hx), (nodup_cons.mp h.nodup).2, fun x hx => h.levels x (.tail _ hx)⟩

theorem look_notMem {arr : List UInt8} (h : arr ∉ es.map (·.tag)) :
    look arr es = logFilterLvlAll := by
  induction es with
  | nil => rfl
  | cons e es ih =>
    rw [map_cons, mem_cons, not_or] at h
    rw [look, if_neg (Ne.symm h.1), ih h.2]

section

variable {es : List UlogTagLvlFilter} (h : Entries es)
include h

theorem getLoop_eq (tag : Text) : getLoop tag es = some (look (tagArray tag) es) := by
  induction es with
  | nil => rfl
  | cons e es ih =>
    obtain ⟨t, ht⟩ := h.arrays e (.head _)
    obtain ⟨res, hres, hiff⟩ := rtStrncmp_tagArray t tag
    rw [getLoop, look, ht, hres, bind_some, ih h.tail]
    simp only [hiff]
    split_ifs <;> rfl

/-- The loop changes the level of just this tag, or fails and changes nothing. -/
theorem setLoop_spec (tag : Text) {level : Nat} (hlevel : level ≤ logFilterLvlAll) (malloc : Bool) :
    ∃ es' res, setLoop tag level malloc es = some (es', res) ∧ Entries es' ∧
      (∀ e ∈ es', e.tag = tagArray tag ∨ e.tag ∈ es.map (·.tag)) ∧
      ∀ arr, look arr es' = if res = 0 ∧ arr = tagArray tag then level else look arr es := by
  induction es with
  | nil =>
    rw [setLoop]
    split_ifs with hall hmalloc
    · exact ⟨[], 0, rfl, h, by simp, fun arr => by rw [hall]; exact (ite_self _).symm⟩
    · refine ⟨_, 0, rfl, ⟨fun e he => ⟨tag, ?_⟩, by simp, ?_⟩, by simp, fun arr => ?_⟩
      · rw [mem_singleton.mp he]
      · exact forall_mem_singleton.mpr (Nat.lt_of_le_of_ne hlevel hall)
      · simp [look, eq_comm]
    · exact ⟨[], -5, rfl, h, by simp, fun arr => rfl⟩
  | cons e es ih =>
    obtain ⟨t, ht⟩ := h.arrays e (.head _)
    obtain ⟨res, hres, hiff⟩ := rtStrncmp_tagArray t tag
    rw [← ht] at hres hiff
    obtain ⟨hnot, -⟩ := nodup_cons.mp h.nodup
    rw [setLoop, hres, bind_some]
    by_cases hfound : res = 0
    · rw [if_pos hfound]
      replace hfound := hiff.mp hfound
      by_cases hall : level = logFilterLvlAll
      · refine ⟨es, 0, by rw [if_pos hall], h.tail, fun x hx => .inr (.tail _ (mem_map_of_mem hx)), ?_⟩
        intro arr
        by_cases harr : arr = tagArray tag
        · rw [if_pos ⟨rfl, harr⟩, hall, harr, ← hfound]
          exact look_notMem hnot
        · rw [if_neg fun hno => harr hno.2, look, if_neg fun hno => harr (hno.symm.trans hfound)]
      · refine ⟨{ e with level } :: es, 0, by rw [if_neg hall], ⟨?_, h.nodup, ?_⟩, ?_, ?_⟩
        · exact forall_mem_cons.mpr ⟨⟨t, ht⟩, h.tail.arrays⟩
        · exact forall_mem_cons.mpr ⟨Nat.lt_of_le_of_ne hlevel hall, h.tail.levels⟩
        · exact forall_mem_cons.mpr ⟨.inr (.head _), fun x hx => .inr (.tail _ (mem_map_of_mem hx))⟩
        · intro arr
          simp [look, hfound, eq_comm]
          split_ifs <;> rfl
    · obtain ⟨es', r, hset, hentries, hsub, hlook⟩ := ih h.tail
      rw [if_neg hfound, hset]
      refine ⟨e :: es', r, rfl, ⟨?_, ?_, ?_⟩, ?_, ?_⟩
      · exact forall_mem_cons.mpr ⟨⟨t, ht⟩, hentries.arrays⟩
      · refine nodup_cons.mpr ⟨fun hmem => ?_, hentries.nodup⟩
        obtain ⟨x, hx, hsame⟩ := mem_map.mp hmem
        rcases hsub x hx with htag | htag
        · exact hfound (hiff.mpr (hsame.symm.trans htag))
        · exact hnot (hsame ▸ htag)
      · exact forall_mem_cons.mpr ⟨h.levels e (.head _), hentries.levels⟩
      · refine forall_mem_cons.mpr ⟨.inr (.head _), fun x hx => ?_⟩
        exact (hsub x hx).imp_right (.tail _)
      · intro arr
        rw [look, look, hlook arr]
        by_cases harr : e.tag = arr
        · rw [if_pos harr, if_pos harr, if_neg fun hno => hfound (hiff.mpr (harr.trans hno.2))]
        · rw [if_neg harr, if_neg harr]

end

namespace Filtered

/-- The invariant of a run. -/
structure Good (s : Filtered) : Prop where
  entries : Entries s.filter.tagLvlList
  levels : ∀ tag : Text, look (tagArray tag) s.filter.tagLvlList =
    s.asked.levels (tag.1.take ulogFilterTagMaxLen)
  level : s.filter.level = s.asked.level
  word : ∃ tag : Text, s.filter.tag = tagArray tag ∧ s.asked.word = tag.1.take ulogFilterTagMaxLen

variable {s s' : Filtered}

theorem Good.step (h : s.Good) {a : Act} (hstep : Step s a s') : s'.Good := by
  cases a with
  | tagLvl tag level malloc =>
    obtain ⟨r, hr, rfl⟩ := map_eq_some_iff.mp hstep
    rw [UlogFilter.tagLvlFilterSet] at hr
    split_ifs at hr with hlevel
    · cases hr
      exact ⟨h.entries, h.levels, h.level, h.word⟩
    obtain ⟨es', res, hset, hentries, -, hlook⟩ := setLoop_spec h.entries tag (Nat.le_of_not_lt hlevel) malloc
    rw [hset] at hr
    cases hr
    refine ⟨hentries, fun t => ?_, ?_, ?_⟩
    · dsimp only
      rw [hlook, h.levels, Asked.tell]
      simp only [tagArray_inj]
      by_cases hres : res = 0
      · simp [hres, Function.update_apply]
      · simp [hres]
    · rw [Asked.tell]
      split_ifs <;> exact h.level
    · rw [Asked.tell]
      split_ifs <;> exact h.word
  | globalLvl level =>
    obtain ⟨filter, hfilter, rfl⟩ := map_eq_some_iff.mp hstep
    rw [UlogFilter.globalFilterLvlSet] at hfilter
    split_ifs at hfilter
    cases hfilter
    exact ⟨h.entries, h.levels, rfl, h.word⟩
  | globalTag tag =>
    cases hstep
    refine ⟨h.entries, h.levels, h.level, tag, ?_, rfl⟩
    obtain ⟨t, ht, -⟩ := h.word
    have hlength : (rtStrncpy t.1 ulogFilterTagMaxLen).length = ulogFilterTagMaxLen := by
      rw [rtStrncpy_eq, length_append, length_take, length_replicate]
      omega
    change rtStrncpy tag.1 ulogFilterTagMaxLen ++ s.filter.tag.drop ulogFilterTagMaxLen = _
    rw [ht, tagArray, tagArray, drop_left' hlength]

theorem good_start : start.Good where
  entries := ⟨by simp [start], by simp [start], by simp [start]⟩
  levels _ := rfl
  level := rfl
  word := ⟨⟨[], not_mem_nil⟩, rfl, rfl⟩

theorem Good.kept (h : s.Good) : s.Kept := by
  have hget (tag : Text) : s.filter.tagLvlFilterGet tag =
      some (s.asked.levels (tag.1.take ulogFilterTagMaxLen)) := by
    rw [UlogFilter.tagLvlFilterGet, getLoop_eq h.entries, h.levels]
  refine ⟨hget, fun level tag => ?_, h.entries.nodup, h.entries.levels⟩
  obtain ⟨t, ht, hword⟩ := h.word
  rw [UlogFilter.passes, hget, ht, string_tagArray, ← hword, h.level]
  have hinfix : rtStrstr tag.1 s.asked.word = true ↔ s.asked.word <:+: tag.1 := by
    simp [rtStrstr, infix_iff_prefix_suffix, and_comm]
  by_cases hle : level ≤ s.asked.level
  · rw [if_neg (Nat.not_lt.mpr hle), map_some]
    simp [hle, ← hinfix]
  · rw [if_pos (Nat.lt_of_not_le hle)]
    simp [hle]

/-- In every run the level of a tag is the one set last with success for the same first characters, no
two entries have the same tag, none is without effect, and a log passes as has been asked for. -/
theorem reachable_filtersKept (h : Reachable (· = start) Step s) : s.Kept := by
  refine Good.kept (h.invariant (I := Good) ?_ fun _ _ _ _ hgood hstep => hgood.step hstep)
  rintro _ rfl
  exact good_start

/-- A level is set for a tag and taken back, with that of another tag between. -/
def setAndBack : List Act :=
  [.tagLvl ⟨[97], by decide⟩ 4 true, .tagLvl ⟨[98], by decide⟩ 3 true,
    .tagLvl ⟨[97], by decide⟩ logFilterLvlAll true]

/-- A level is set and set back, and the node of its tag is freed. -/
theorem reachable_filtersKept_back :
    ∃ s, runAll exec start setAndBack = some s ∧ s.asked.levels [98] = 3 ∧ s.Kept := by
  obtain ⟨s, hs, hlevel⟩ :
      ∃ s ∈ runAll exec start setAndBack, s.asked.levels [98] = 3 := by decide +kernel
  exact ⟨s, hs, hlevel, reachable_filtersKept (Reachable.runAll (Reachable.start rfl) hs)⟩

end Filtered

end RtKernel.Ulog
