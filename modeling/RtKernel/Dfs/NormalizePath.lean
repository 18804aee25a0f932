import RtKernel.Core.Paths
import RtKernel.Dfs.InPlace

/-!
# Normalized paths

What the loop has written is the walk so far. A walk that climbs above the root loses the first
slash, and the next time it climbs there is a null pointer.
-/

open List

namespace RtKernel.Dfs

open Paths

variable {w : Walk Char} {comps : List Path} {out path : Path}

/-- What the loop has written after a walk, with its last character first. -/
def written (w : Walk Char) : Path :=
  w.names.flatMap (fun n => '/' :: n.reverse) ++ if w.climbs = 0 then ['/'] else []

/-- The path to the components that are to come. -/
def toCome (comps : List Path) : Path := ['/'].intercalate comps

variable {c : Path}

theorem toCome_cons {comps : List Path} (h : comps ≠ []) :
    toCome (c :: comps) = c ++ '/' :: toCome comps := by
  unfold toCome
  rw [intercalate_cons_of_ne_nil h, append_assoc]
  rfl

/-- A walk as it is at the start of a turn: slashes have been left out. -/
structure Ready (comps : List Path) : Prop where
  ne_nil : comps ≠ []
  head : ∀ c ∈ comps.head?, c ≠ [] ∨ comps.tail = []
  free : ∀ c ∈ comps, '/' ∉ c

theorem skipSlashes_cons {x : Char} (h : x ≠ '/') (t : Path) : skipSlashes (x :: t) = x :: t := by
  unfold skipSlashes
  rw [dropWhile_cons, if_neg (by simpa using h)]

theorem skipSlashes_name (hne : c ≠ []) (hfree : '/' ∉ c) (t : Path) :
    skipSlashes (c ++ t) = c ++ t := by
  obtain ⟨x, c, rfl⟩ := exists_cons_of_ne_nil hne
  exact skipSlashes_cons (fun hno => hfree (hno ▸ mem_cons_self)) _

/-- Slashes are left out with the components between them, which are empty. -/
theorem skip_toCome (hne : comps ≠ []) (hfree : ∀ c ∈ comps, '/' ∉ c) : ∃ comps',
    skipSlashes (toCome comps) = toCome comps' ∧ Ready comps' ∧ comps'.length ≤ comps.length ∧
      ∀ w : Walk Char, w.along '.' comps = w.along '.' comps' := by
  induction comps with
  | nil => exact absurd rfl hne
  | cons c comps ih =>
    rcases eq_or_ne c [] with rfl | hname
    · rcases eq_or_ne comps [] with rfl | hmore
      · exact ⟨[[]], rfl, ⟨hne, fun _ _ => .inr rfl, hfree⟩, Nat.le_refl _, fun _ => rfl⟩
      · obtain ⟨comps', hskip, hready, hle, halong⟩ :=
          ih hmore fun d hd => hfree d (.tail _ hd)
        refine ⟨comps', ?_, hready, Nat.le_succ_of_le hle, fun w => ?_⟩
        · rw [toCome_cons hmore]
          exact hskip
        · rw [Walk.along_cons, Walk.step_nil]
          exact halong w
    · refine ⟨c :: comps, ?_, ⟨hne, ?_, hfree⟩, Nat.le_refl _, fun _ => rfl⟩
      · have hskip := skipSlashes_name hname (hfree c (.head _))
        rcases eq_or_ne comps [] with rfl | hmore
        · simpa [toCome] using hskip []
        · rw [toCome_cons hmore]
          exact hskip _
      · intro d hd
        rw [← Option.some.inj hd]
        exact .inl hname

/-- The slash behind a name is the last one that is written. -/
theorem written_cons (n : Path) (names : List Path) (k : Nat) :
    written ⟨n :: names, k⟩ = '/' :: (n.reverse ++ written ⟨names, k⟩) := by
  unfold written
  rw [flatMap_cons]
  simp only [cons_append, append_assoc]

/-- A step up takes the last name back, or the first slash; behind that there is nothing. -/
theorem written_up (hnames : ∀ n ∈ w.names, Proper '/' '.' n) (hk : w.climbs ≤ 1) :
    (written w = [] ∧ w.step '.' ['.', '.'] = ⟨[], 2⟩) ∨
      ∃ x t, written w = x :: t ∧ t.dropWhile (· ≠ '/') = written (w.step '.' ['.', '.']) ∧
        (w.step '.' ['.', '.']).climbs ≤ 1 := by
  obtain ⟨names, k⟩ := w
  cases names with
  | nil =>
    rcases Nat.le_one_iff_eq_zero_or_eq_one.mp hk with rfl | rfl
    · exact .inr ⟨'/', [], rfl, rfl, Nat.le_refl _⟩
    · exact .inl ⟨rfl, rfl⟩
  | cons n names =>
    rw [Walk.step_dots_cons]
    refine .inr ⟨'/', _, written_cons n names k, ?_, hk⟩
    have hfree : ∀ x ∈ n.reverse, decide (x ≠ '/') = true := by
      intro x hx
      refine decide_eq_true fun hno => (hnames n (.head _)).sep_free ?_
      rw [← hno]
      exact mem_reverse.mp hx
    rw [dropWhile_append_of_pos hfree]
    cases names with
    | nil => rcases Nat.le_one_iff_eq_zero_or_eq_one.mp hk with rfl | rfl <;> rfl
    | cons m names => rw [written_cons, dropWhile_cons, if_neg (by simp)]

/-- What a walk ends with: its last slash may be missing. -/
def Last (w : Walk Char) (out : Path) : Prop :=
  out = written w ∨ w.names ≠ [] ∧ '/' :: out = written w

theorem normalizeLoop_end (hfree : '/' ∉ c) (hdot : c ≠ ['.']) (hdots : c ≠ ['.', '.'])
    (out : Path) : normalizeLoop c out = some (c.reverse ++ out) := by
  have hall : ∀ x ∈ c, decide (x ≠ '/') = true :=
    fun x hx => decide_eq_true fun hno => hfree (hno ▸ hx)
  refine InPlace.normalizeLoop_last hdot ?_ hdots ?_ (dropWhile_eq_nil_iff.mpr hall)
  all_goals
    rintro t rfl
    exact hfree (by simp)

theorem takeWhile_name (hfree : '/' ∉ c) (t : Path) : (c ++ '/' :: t).takeWhile (· ≠ '/') = c := by
  have hall : ∀ x ∈ c, decide (x ≠ '/') = true :=
    fun x hx => decide_eq_true fun hno => hfree (hno ▸ hx)
  rw [takeWhile_append_of_pos hall]
  simp

theorem ne_of_free {c d t : Path} (hc : '/' ∉ c) (hd : '/' ∉ d) (hne : c ≠ d) (r : Path) :
    c ++ '/' :: t ≠ d ++ '/' :: r :=
  fun hno => hne ((takeWhile_name hc t).symm.trans ((congrArg _ hno).trans (takeWhile_name hd r)))

theorem normalizeLoop_name (hfree : '/' ∉ c) (hdot : c ≠ ['.']) (hdots : c ≠ ['.', '.'])
    (t out : Path) : normalizeLoop (c ++ '/' :: t) out =
      normalizeLoop (skipSlashes t) ('/' :: (c.reverse ++ out)) := by
  have hall : ∀ x ∈ c, decide (x ≠ '/') = true :=
    fun x hx => decide_eq_true fun hno => hfree (hno ▸ hx)
  have hdrop : (c ++ '/' :: t).dropWhile (· ≠ '/') = '/' :: t := by
    rw [dropWhile_append_of_pos hall]
    rfl
  have hmem : '/' ∈ c ++ '/' :: t := by simp
  rw [InPlace.normalizeLoop_more ?_ (ne_of_free hfree (by decide) hdot) ?_
    (ne_of_free hfree (by decide) hdots) hdrop, takeWhile_name hfree]
  all_goals
    intro hno
    rw [hno] at hmem
    exact absurd hmem (by decide)

/-- The loop walks along the components, unless it climbs twice. -/
def Walks (comps : List Path) (w : Walk Char) (out : Path) : Prop :=
  (2 ≤ (w.along '.' comps).climbs → normalizeLoop (toCome comps) out = none) ∧
    ((w.along '.' comps).climbs ≤ 1 →
      ∃ out', normalizeLoop (toCome comps) out = some out' ∧ Last (w.along '.' comps) out')

theorem walks_end (hend : normalizeLoop c (written w) = some out)
    (hlast : Last (w.step '.' c) out) (hk : (w.step '.' c).climbs ≤ 1) :
    Walks [c] w (written w) := by
  refine ⟨fun hno => absurd hno (Nat.not_le.mpr (Nat.lt_succ_of_le hk)), fun _ => ⟨out, ?_, hlast⟩⟩
  unfold toCome
  rwa [intercalate_singleton]

/-- A turn goes on behind the component and the slashes. -/
theorem walks_next {comps' : List Path} (hne : comps ≠ [])
    (hturn : normalizeLoop (c ++ '/' :: toCome comps) out =
      normalizeLoop (skipSlashes (toCome comps)) (written (w.step '.' c)))
    (hskip : skipSlashes (toCome comps) = toCome comps')
    (halong : ∀ w : Walk Char, w.along '.' comps = w.along '.' comps')
    (h : Walks comps' (w.step '.' c) (written (w.step '.' c))) : Walks (c :: comps) w out := by
  unfold Walks
  rw [toCome_cons hne, hturn, hskip, Walk.along_cons, halong]
  exact h

theorem normalizeLoop_walk (hready : Ready comps) (hnames : ∀ n ∈ w.names, Proper '/' '.' n)
    (hk : w.climbs ≤ 1) : Walks comps w (written w) := by
  induction hlength : comps.length using Nat.strong_induction_on generalizing comps w with
  | h length ih =>
    obtain ⟨c, comps, rfl⟩ := exists_cons_of_ne_nil hready.ne_nil
    have hfree := hready.free c (.head _)
    -- where there is more to come, it is left to the next turns
    have hnext : comps ≠ [] → ∀ hk' : (w.step '.' c).climbs ≤ 1,
        normalizeLoop (c ++ '/' :: toCome comps) (written w) =
          normalizeLoop (skipSlashes (toCome comps)) (written (w.step '.' c)) →
        Walks (c :: comps) w (written w) := by
      intro hmore hk' hturn
      obtain ⟨comps', hskip, hready', hle, halong⟩ :=
        skip_toCome hmore fun d hd => hready.free d (.tail _ hd)
      exact walks_next hmore hturn hskip halong (ih _ (by
        rw [← hlength, length_cons]
        omega) hready' (Walk.step_names hnames hfree) hk' rfl)
    by_cases hdot : c = ['.']
    · subst hdot
      rw [Walk.step_dot] at hnext
      rcases eq_or_ne comps [] with rfl | hmore
      · have hend : normalizeLoop ['.'] (written w) = some (written w) := by
          rw [normalizeLoop]
        refine walks_end hend ?_ ?_
        · rw [Walk.step_dot]
          exact .inl rfl
        · rwa [Walk.step_dot]
      · refine hnext hmore hk ?_
        rw [singleton_append, normalizeLoop]
    by_cases hdots : c = ['.', '.']
    · subst hdots
      rcases written_up hnames hk with ⟨hempty, htwice⟩ | ⟨x, t, hx, hup, hk'⟩
      · have htwo : 2 ≤ (w.along '.' (['.', '.'] :: comps)).climbs :=
          calc
            2 = (w.step '.' ['.', '.']).climbs := by rw [htwice]
            _ ≤ _ := Walk.climbs_le_along comps
        refine ⟨fun _ => ?_, fun hno => absurd htwo (Nat.not_le.mpr (Nat.lt_succ_of_le hno))⟩
        rw [hempty]
        rcases eq_or_ne comps [] with rfl | hmore
        · unfold toCome
          rw [intercalate_singleton, normalizeLoop]
        · rw [toCome_cons hmore, cons_append, singleton_append, normalizeLoop]
      · rcases eq_or_ne comps [] with rfl | hmore
        · refine walks_end ?_ (.inl rfl) hk'
          rw [hx, normalizeLoop, hup]
          exact normalizeLoop_end not_mem_nil (by simp) (by simp) _
        · refine hnext hmore hk' ?_
          rw [hx, cons_append, singleton_append, normalizeLoop, hup]
    rcases eq_or_ne c [] with rfl | hname
    · have hlast : comps = [] := (hready.head [] rfl).resolve_left fun hno => hno rfl
      subst hlast
      refine walks_end (normalizeLoop_end hfree hdot hdots _) ?_ ?_
      · rw [Walk.step_nil]
        exact .inl rfl
      · rwa [Walk.step_nil]
    · have hproper : Proper '/' '.' c := ⟨hname, hdot, hdots, hfree⟩
      rw [Walk.step_proper hproper] at hnext
      rcases eq_or_ne comps [] with rfl | hmore
      · refine walks_end (normalizeLoop_end hfree hdot hdots _) ?_ ?_
        · rw [Walk.step_proper hproper]
          exact .inr ⟨cons_ne_nil _ _, (written_cons ..).symm⟩
        · rw [Walk.step_proper hproper]
          exact hk
      · refine hnext hmore hk ?_
        rw [normalizeLoop_name hfree hdot hdots]
        exact congrArg _ (written_cons ..).symm

theorem normalizeLoop_resolve (hpath : path.head? = some '/') :
    (2 ≤ (resolve '/' '.' path).climbs → normalizeLoop path [] = none) ∧
      ((resolve '/' '.' path).climbs ≤ 1 →
        ∃ out, normalizeLoop path [] = some out ∧ Last (resolve '/' '.' path) out) := by
  obtain ⟨rest, rfl⟩ : ∃ rest, path = '/' :: rest := by
    cases path with
    | nil => cases hpath
    | cons x rest =>
      cases hpath
      exact ⟨rest, rfl⟩
  have hfirst : normalizeLoop ('/' :: rest) [] = normalizeLoop (skipSlashes rest) ['/'] :=
    normalizeLoop_name not_mem_nil (by simp) (by simp) rest []
  have hrest : rest = toCome (rest.splitOn '/') := (intercalate_splitOn '/').symm
  have hresolve : resolve '/' '.' ('/' :: rest) = Walk.root.along '.' (rest.splitOn '/') := by
    unfold resolve
    rw [splitOn_cons_eq_if_modifyHead, if_pos (beq_self_eq_true _), Walk.along_cons,
      Walk.step_nil]
  obtain ⟨comps, hskip, hready, -, halong⟩ :=
    skip_toCome (splitOn_ne_nil '/' rest) fun c hc => sep_free_of_mem_splitOn hc
  rw [← hrest] at hskip
  rw [hfirst, hskip, hresolve, halong]
  exact normalizeLoop_walk hready (fun _ hn => absurd hn not_mem_nil) (Nat.zero_le 1)

/-- With the first slash, what is written is the canonical path and the last slash. -/
theorem written_reverse (names : List Path) :
    (written ⟨names, 0⟩).reverse = names.reverse.flatMap ('/' :: ·) ++ ['/'] := by
  induction names with
  | nil => rfl
  | cons n names ih =>
    rw [written_cons, reverse_cons, reverse_append, reverse_reverse, ih]
    simp

theorem written_climbed (names : List Path) : written ⟨names, 0⟩ = written ⟨names, 1⟩ ++ ['/'] := by
  simp [written]

variable {names : List Path} {directory filename : Path}

/-- A walk that has come to names is finished without its last slash. -/
theorem Last.finish {n : Path} {k : Nat} (h : Last ⟨n :: names, k⟩ out) (hn : Proper '/' '.' n) :
    out ≠ [] ∧ finish out = (n.reverse ++ written ⟨names, k⟩).reverse := by
  have hbody : n.reverse ++ written ⟨names, k⟩ ≠ [] := by
    simp [hn.ne_nil]
  have hwritten := written_cons n names k
  rcases h with rfl | ⟨-, hslash⟩
  · rw [hwritten]
    exact ⟨cons_ne_nil _ _, InPlace.finish_slash hbody⟩
  · rw [hwritten] at hslash
    obtain rfl := (List.cons.inj hslash).2
    refine ⟨hbody, ?_⟩
    obtain ⟨x, t, hx⟩ := exists_cons_of_ne_nil (reverse_ne_nil_iff.mpr hn.ne_nil)
    rw [hx, cons_append]
    refine InPlace.finish_reverse fun hno => hn.sep_free ?_
    rw [← hno.2]
    exact mem_reverse.mp (hx ▸ mem_cons_self)

/-- A walk that has not climbed is finished as a canonical path. -/
theorem Last.finish_zero (h : Last ⟨names, 0⟩ out) (hnames : ∀ n ∈ names, Proper '/' '.' n) :
    out ≠ [] ∧ Dfs.finish out = canonical '/' names.reverse := by
  cases names with
  | nil =>
    obtain rfl : out = ['/'] := h.resolve_right fun hno => hno.1 rfl
    exact ⟨cons_ne_nil _ _, rfl⟩
  | cons n names =>
    obtain ⟨hne, hfinish⟩ := h.finish (hnames n (.head _))
    refine ⟨hne, hfinish.trans ?_⟩
    have hreverse := written_reverse (n :: names)
    rw [written_cons, reverse_cons] at hreverse
    unfold canonical
    rw [if_neg (by simp)]
    exact append_cancel_right hreverse

/-- A walk that has climbed once leaves nothing, or a path that does not begin with a slash. -/
theorem Last.finish_one (h : Last ⟨names, 1⟩ out) (hnames : ∀ n ∈ names, Proper '/' '.' n) :
    out = [] ∨ out ≠ [] ∧ (Dfs.finish out).head? ≠ some '/' := by
  cases names with
  | nil => exact .inl (h.resolve_right fun hno => hno.1 rfl)
  | cons n names =>
    obtain ⟨hne, hfinish⟩ := h.finish (hnames n (.head _))
    refine .inr ⟨hne, ?_⟩
    -- the path would go on with the first name
    obtain ⟨m, names', hm⟩ := exists_cons_of_ne_nil
      (reverse_ne_nil_iff.mpr (cons_ne_nil n names))
    have hproper : Proper '/' '.' m := hnames m (mem_reverse.mp (hm ▸ mem_cons_self))
    have hreverse :
        '/' :: (Dfs.finish out ++ ['/']) = (m :: names').flatMap ('/' :: ·) ++ ['/'] := by
      rw [hfinish, ← hm, ← written_reverse, written_climbed, reverse_append, written_cons]
      simp
    have hpath := append_cancel_right (List.cons.inj hreverse).2
    obtain ⟨x, t, rfl⟩ := exists_cons_of_ne_nil hproper.ne_nil
    rw [hpath]
    exact fun hno => hproper.sep_free (Option.some.inj hno ▸ mem_cons_self)

/-- The path is normalized, or there is a null pointer for a path that climbs above the root. -/
def Normalizes (directory filename : Path) : Prop :=
  let w := resolve '/' '.' (InPlace.fullpath directory filename)
  (InPlace.dfsNormalizePath directory filename = some none ∧ 0 < w.climbs) ∨
    ∃ fullpath, InPlace.dfsNormalizePath directory filename = some (some fullpath) ∧
      fullpath = canonical '/' w.names.reverse ∧ fullpath.head? = some '/' ∧
        ∀ d, InPlace.dfsNormalizePath d fullpath = some (some fullpath)

theorem last_clean (hnul : InPlace.nul ∉ path) (hlast : Last (resolve '/' '.' path) out) :
    InPlace.nul ∉ out := by
  have hwritten : InPlace.nul ∉ written (resolve '/' '.' path) := by
    intro hno
    rcases mem_append.mp hno with hname | hslash
    · obtain ⟨n, hn, hmem⟩ := mem_flatMap.mp hname
      rcases mem_cons.mp hmem with hslash | hmem
      · exact absurd hslash (by decide)
      · exact hnul (mem_of_mem_resolve hn (mem_reverse.mp hmem))
    · split_ifs at hslash
      · exact absurd hslash (by decide)
      · exact absurd hslash not_mem_nil
  rcases hlast with rfl | ⟨-, hslash⟩
  · exact hwritten
  · exact fun hno => hwritten (hslash ▸ .tail _ hno)

/-- What `dfs_normalize_path` results in, by how often the path climbs. -/
theorem dfsNormalizePath_resolve
    (hpath : (InPlace.fullpath directory filename).head? = some '/')
    (hnul : InPlace.nul ∉ InPlace.fullpath directory filename) :
    let w := resolve '/' '.' (InPlace.fullpath directory filename)
    (w.climbs = 0 → InPlace.dfsNormalizePath directory filename =
      some (some (canonical '/' w.names.reverse))) ∧
    (w.climbs = 1 → InPlace.dfsNormalizePath directory filename = none ∨
      ∃ fullpath, InPlace.dfsNormalizePath directory filename = some (some fullpath) ∧
        fullpath.head? ≠ some '/') ∧
    (2 ≤ w.climbs → InPlace.dfsNormalizePath directory filename = some none) := by
  generalize hfull : InPlace.fullpath directory filename = path at *
  have hnames := resolve_names '/' '.' path
  obtain ⟨hnull, hsome⟩ := normalizeLoop_resolve hpath
  have hclean : ∀ out, normalizeLoop (InPlace.fullpath directory filename) [] = some out →
      InPlace.nul ∉ out := by
    intro out hout
    rw [hfull] at hout
    rcases Nat.lt_or_ge (resolve '/' '.' path).climbs 2 with hlt | htwo
    · obtain ⟨out', hout', hlast⟩ := hsome (Nat.le_of_lt_succ hlt)
      obtain rfl := Option.some.inj (hout.symm.trans hout')
      exact last_clean hnul hlast
    · rw [hnull htwo] at hout
      cases hout
  have hresult := InPlace.dfsNormalizePath_eq directory filename (hfull ▸ hnul) hclean
  rw [hfull] at hresult
  generalize resolve '/' '.' path = w at *
  obtain ⟨names, k⟩ := w
  refine ⟨?_, ?_, fun htwo => ?_⟩
  · rintro rfl
    obtain ⟨out, hout, hlast⟩ := hsome (Nat.zero_le 1)
    obtain ⟨hne, hfinish⟩ := hlast.finish_zero hnames
    obtain ⟨x, t, rfl⟩ := exists_cons_of_ne_nil hne
    rw [hresult, hout, ← hfinish]
  · rintro rfl
    obtain ⟨out, hout, hlast⟩ := hsome (Nat.le_refl 1)
    rw [hresult, hout]
    rcases hlast.finish_one hnames with rfl | ⟨hne, hhead⟩
    · exact .inl rfl
    · obtain ⟨x, t, rfl⟩ := exists_cons_of_ne_nil hne
      exact .inr ⟨_, rfl, hhead⟩
  · rw [hresult, hnull htwo]

theorem canonical_head (names : List Path) : (canonical '/' names).head? = some '/' := by
  cases names <;> rfl

/-- A canonical path is what `dfs_normalize_path` makes of it. -/
theorem dfsNormalizePath_canonical (hnames : ∀ n ∈ names, Proper '/' '.' n)
    (hnul : InPlace.nul ∉ canonical '/' names) (d : Path) :
    InPlace.dfsNormalizePath d (canonical '/' names) = some (some (canonical '/' names)) := by
  have hfull : InPlace.fullpath d (canonical '/' names) = canonical '/' names :=
    if_pos (canonical_head names)
  have hhead : (InPlace.fullpath d (canonical '/' names)).head? = some '/' := by
    rw [hfull, canonical_head]
  have hresult := (dfsNormalizePath_resolve hhead (by rwa [hfull])).1
  rw [hfull, resolve_canonical hnames] at hresult
  rw [hresult rfl, reverse_reverse]

/-- `dfs_normalize_path` normalizes a path just when it does not climb above the root once. -/
theorem normalizes_iff {directory filename : Path} (hdirectory : directory.head? = some '/')
    (hnul : InPlace.nul ∉ directory) (hnul' : InPlace.nul ∉ filename) :
    Normalizes directory filename ↔
      (resolve '/' '.' (InPlace.fullpath directory filename)).climbs ≠ 1 := by
  have hpath : (InPlace.fullpath directory filename).head? = some '/' := by
    unfold InPlace.fullpath
    split_ifs with habsolute
    · exact habsolute
    · obtain ⟨t, rfl⟩ := List.head?_eq_some_iff.mp hdirectory
      rfl
  have hclean : InPlace.nul ∉ InPlace.fullpath directory filename := by
    unfold InPlace.fullpath
    split_ifs
    · exact hnul'
    · intro hno
      rcases List.mem_append.mp hno with hno | hno
      · exact hnul hno
      · rcases List.mem_cons.mp hno with hno | hno
        · exact absurd hno (by decide)
        · exact hnul' hno
  obtain ⟨hzero, hone, htwo⟩ := dfsNormalizePath_resolve hpath hclean
  unfold Normalizes
  dsimp only
  constructor
  · rintro h hclimbs
    rcases hone hclimbs with hnone | ⟨p, hp, hhead⟩
    · rcases h with ⟨hnull, -⟩ | ⟨q, hq, -⟩
      · exact absurd (hnone.symm.trans hnull) (Option.some_ne_none _).symm
      · exact absurd (hnone.symm.trans hq) (Option.some_ne_none _).symm
    · rcases h with ⟨hnull, -⟩ | ⟨q, hq, -, hslash, -⟩
      · exact absurd (Option.some.inj (hp.symm.trans hnull)) (Option.some_ne_none _)
      · obtain rfl := Option.some.inj (Option.some.inj (hp.symm.trans hq))
        exact hhead hslash
  · intro hclimbs
    rcases Nat.lt_or_ge (resolve '/' '.' (InPlace.fullpath directory filename)).climbs 2
      with hlt | hge
    · have hroot : (resolve '/' '.' (InPlace.fullpath directory filename)).climbs = 0 := by omega
      refine .inr ⟨_, hzero hroot, rfl, canonical_head _, dfsNormalizePath_canonical ?_ ?_⟩
      · exact fun n hn => resolve_names '/' '.' _ n (List.mem_reverse.mp hn)
      · intro hno
        rcases mem_canonical hno with hslash | ⟨n, hn, hmem⟩
        · exact absurd hslash (by decide)
        · exact hclean (mem_of_mem_resolve (List.mem_reverse.mp hn) hmem)
    · exact .inl ⟨htwo hge, by omega⟩

/-- Two names, and dots in between. -/
theorem normalizes_names : Normalizes "/sd".toList "./a//../b/".toList :=
  (normalizes_iff (by decide) (by decide) (by decide)).mpr (by decide +kernel)

/-- The directory above the root: a path that is not absolute, and a read before the string. -/
theorem normalizes_above_root :
    InPlace.dfsNormalizePath ['/'] "/../a".toList = some (some ['a']) ∧
      InPlace.dfsNormalizePath ['/'] "/..".toList = none ∧ ¬ Normalizes ['/'] "/../a".toList := by
  have hrelative : InPlace.dfsNormalizePath ['/'] "/../a".toList = some (some ['a']) := by
    decide +kernel
  refine ⟨hrelative, by decide +kernel, ?_⟩
  rintro (⟨hnull, -⟩ | ⟨p, hp, -, hslash, -⟩)
  · rw [hrelative] at hnull
    cases hnull
  · rw [hrelative] at hp
    cases hp
    exact absurd hslash (by decide)

theorem resolve_append (path more : Path) : resolve '/' '.' (path ++ '/' :: more) =
    (resolve '/' '.' path).along '.' (more.splitOn '/') := by
  rw [resolve, splitOn_append_cons_self, Walk.along, foldl_append]
  rfl

theorem fullpath_head (h : directory.head? = some '/') :
    (InPlace.fullpath directory filename).head? = some '/' := by
  unfold InPlace.fullpath
  split_ifs with habsolute
  · exact habsolute
  · obtain ⟨t, rfl⟩ := List.head?_eq_some_iff.mp h
    rfl

theorem fullpath_clean (h : InPlace.nul ∉ directory) (h' : InPlace.nul ∉ filename) :
    InPlace.nul ∉ InPlace.fullpath directory filename := by
  unfold InPlace.fullpath
  split_ifs
  · exact h'
  · simpa [h, h'] using (by decide : InPlace.nul ≠ '/')

/-- To go to a path first and then to one below it is to go to the joined path, unless that climbs above the
root just once. -/
theorem dfsNormalizePath_join {directory path more d : Path} (hdirectory : directory.head? = some '/')
    (hnul : InPlace.nul ∉ directory) (hnul' : InPlace.nul ∉ path) (hmore : InPlace.nul ∉ more)
    (hne : path ≠ []) (hbelow : more.head? ≠ some '/')
    (hd : InPlace.dfsNormalizePath directory path = some (some d)) (hroot : d.head? = some '/')
    (hclimbs : (resolve '/' '.' (InPlace.fullpath directory (path ++ '/' :: more))).climbs ≠ 1) :
    InPlace.dfsNormalizePath d more = InPlace.dfsNormalizePath directory (path ++ '/' :: more) := by
  have hjoin : InPlace.nul ∉ path ++ '/' :: more := by
    simpa [hnul', hmore] using (by decide : InPlace.nul ≠ '/')
  obtain ⟨hzero, hone, htwo⟩ := dfsNormalizePath_resolve (fullpath_head hdirectory) (fullpath_clean hnul hnul')
  -- the first path does not climb, as it leads to the root
  have hstays : (resolve '/' '.' (InPlace.fullpath directory path)).climbs = 0 := by
    by_contra hno
    rcases Nat.lt_or_ge (resolve '/' '.' (InPlace.fullpath directory path)).climbs 2 with hlt | hge
    · rcases hone (by omega) with hnone | ⟨p, hp, hhead⟩
      · exact absurd (hnone.symm.trans hd) (by simp)
      · cases hp.symm.trans hd
        exact hhead hroot
    · exact absurd ((htwo hge).symm.trans hd) (by simp)
  cases hd.symm.trans (hzero hstays)
  have hnames := resolve_names '/' '.' (InPlace.fullpath directory path)
  have hsame : resolve '/' '.' (InPlace.fullpath (canonical '/'
      (resolve '/' '.' (InPlace.fullpath directory path)).names.reverse) more) =
      resolve '/' '.' (InPlace.fullpath directory (path ++ '/' :: more)) := by
    have hfull : InPlace.fullpath directory (path ++ '/' :: more) =
        InPlace.fullpath directory path ++ '/' :: more := by
      obtain ⟨x, t, rfl⟩ := exists_cons_of_ne_nil hne
      unfold InPlace.fullpath
      rw [cons_append, List.head?_cons, List.head?_cons]
      split_ifs
      · rfl
      · rw [append_assoc, cons_append, cons_append]
    rw [hfull, resolve_append, InPlace.fullpath, if_neg hbelow, resolve_append,
      resolve_canonical fun n hn => hnames n (mem_reverse.mp hn), reverse_reverse]
    generalize resolve '/' '.' (InPlace.fullpath directory path) = w at hstays
    obtain ⟨names, k⟩ := w
    cases hstays
    rfl
  have hleft := dfsNormalizePath_resolve (fullpath_head hroot : (InPlace.fullpath _ more).head? = _) (fullpath_clean ?_ hmore)
  have hright := dfsNormalizePath_resolve (fullpath_head hdirectory) (fullpath_clean hnul hjoin)
  rw [hsame] at hleft
  rcases Nat.lt_or_ge (resolve '/' '.' (InPlace.fullpath directory (path ++ '/' :: more))).climbs 2 with hlt | hge
  · exact (hleft.1 (by omega)).trans (hright.1 (by omega)).symm
  · exact (hleft.2.2 hge).trans (hright.2.2 hge).symm
  intro hno
  rcases mem_canonical hno with hslash | ⟨n, hn, hmem⟩
  · exact absurd hslash (by decide)
  · exact fullpath_clean hnul hnul' (mem_of_mem_resolve (mem_reverse.mp hn) hmem)

/-- `../b` in the directory `/sd/a`. -/
theorem dfsNormalizePath_join_up : InPlace.dfsNormalizePath "/sd/a".toList "../b".toList =
    InPlace.dfsNormalizePath ['/'] "sd/./a/../b".toList :=
  dfsNormalizePath_join (by decide) (by decide) (by decide) (by decide) (by decide) (by decide)
    (by decide +kernel : InPlace.dfsNormalizePath ['/'] "sd/./a".toList = some (some "/sd/a".toList)) (by decide)
    (by decide +kernel)

end RtKernel.Dfs
