import Mathlib.Algebra.Order.BigOperators.Group.Finset
import RtKernel.Core.Count
import RtKernel.Core.Run

/-!
# The table of file descriptors

A structure is allocated for every open file, and found through the table. Who uses it counts
itself, and the last one to put it frees it and clears its entry. An open and a close put it
twice where the descriptor is given up. What runs with `fslock` locked is one step, and so is
an operation of the file system between two such sections.
-/

namespace RtKernel.Dfs

/-- How far the file of a structure has come. -/
inductive Life
  | opening
  | opened
  /-- The open has failed. -/
  | failed
  /-- The close operation has succeeded. -/
  | closed
  deriving DecidableEq

/-- The reference that an open file has for itself. -/
def Life.base : Life → Nat
  | .opening | .opened => 1
  | .failed | .closed => 0

/-- `struct dfs_fd`, with its descriptor, what has become of its file, how often the close operation ran
and how often it failed, and how often it was freed. -/
structure DfsFd where
  magic : Bool
  refCount : Int
  idx : Nat
  life : Life
  closeRuns : Nat
  closeFails : Nat
  frees : Nat

/-- Memory that `rt_calloc` has not returned yet. -/
def DfsFd.zero : DfsFd :=
  { magic := false, refCount := 0, idx := 0, life := .failed, closeRuns := 0, closeFails := 0, frees := 0 }

namespace FdTable

/-- Where a thread is, with the structure that it has. -/
inductive Pc
  | idle
  /-- `open` has a descriptor from `fd_new`. -/
  | opens (idx d : Nat)
  /-- It has the structure from `fd_get`. -/
  | opening (d : Nat)
  | opened (d : Nat)
  /-- `open` has failed, and is to put the structure twice, or once more. -/
  | fails (d : Nat) (again : Bool)
  | closing (d : Nat)
  /-- The close operation has succeeded or not. -/
  | closed (d : Nat) (result : Bool)
  /-- `close` is to put the structure once more. -/
  | drops (d : Nat)
  /-- A read or a write, before its operation and after it. -/
  | uses (d : Nat)
  | used (d : Nat)
  /-- An assertion has failed. -/
  | halted
  deriving DecidableEq

end FdTable

open FdTable Function List Option

/-- `struct dfs_fdtable`, the structures and the threads. -/
structure FdTable (τ : Type*) where
  dfsFdMax : Nat
  fds : List (Option Nat)
  fd : Nat → DfsFd
  /-- How many structures have been allocated. -/
  allocated : Nat
  pc : τ → Pc
  /-- A descriptor has been handed out while an earlier open of it was not closed. -/
  repeated : Bool
  /-- A structure has been read or written after it was freed. -/
  fault : Bool

namespace FdTable

variable {τ : Type*}

/-- What may happen. -/
inductive Act (τ : Type*)
  /-- `open` begins; `rt_realloc` and `rt_calloc` find memory or not. -/
  | open (t : τ) (realloc calloc : Bool)
  | close (t : τ) (fd : Nat)
  /-- `read` or `write` begins. -/
  | use (t : τ) (fd : Nat)
  /-- A call goes on; an operation of the file system succeeds or not. -/
  | step (t : τ) (result : Bool)

variable [DecidableEq τ]

def setPc (s : FdTable τ) (t : τ) (pc : Pc) : FdTable τ := { s with pc := update s.pc t pc }

def setFd (s : FdTable τ) (d : Nat) (fd : DfsFd) : FdTable τ := { s with fd := update s.fd d fd }

def setRef (s : FdTable τ) (d : Nat) (refCount : Int) : FdTable τ :=
  s.setFd d { s.fd d with refCount := refCount }

/-- A structure is read or written. -/
def touch (s : FdTable τ) (d : Nat) : FdTable τ :=
  { s with fault := s.fault || decide (0 < (s.fd d).frees) }

/-- The search of `fd_alloc` for an entry. -/
def findEmpty (s : FdTable τ) : Nat :=
  s.fds.findIdx fun entry => entry.all fun d => (s.fd d).refCount = 0

/-- A larger table, if all of its entries are in use. -/
def grow (s : FdTable τ) (realloc : Bool) : FdTable τ :=
  let maxfd := s.fds.length
  if s.findEmpty = maxfd ∧ maxfd < s.dfsFdMax ∧ realloc then
    { s with fds := s.fds ++ List.replicate (min (maxfd + 4) s.dfsFdMax - maxfd) none }
  else s

/-- An earlier open of a descriptor that is not closed. -/
def Unclosed (s : FdTable τ) (idx : Nat) : Prop :=
  ∃ d < s.allocated, (s.fd d).idx = idx ∧ ((s.fd d).life = .opening ∨ (s.fd d).life = .opened)

instance (s : FdTable τ) (idx : Nat) : Decidable (s.Unclosed idx) :=
  inferInstanceAs (Decidable (∃ d < s.allocated, _ ∧ _))

/-- The descriptor is handed out. -/
def handOut (s : FdTable τ) (t : τ) (idx d : Nat) : FdTable τ :=
  setPc (setFd { s with repeated := s.repeated || decide (s.Unclosed idx) } d
    { magic := true, refCount := 1, idx := idx, life := .opening, closeRuns := 0, closeFails := 0,
      frees := (s.fd d).frees }) t (.opens idx d)

/-- `fd_new`, with `fd_alloc`. -/
def fdNew (s : FdTable τ) (t : τ) (realloc calloc : Bool) : FdTable τ :=
  let idx := s.findEmpty
  let s := s.grow realloc
  match s.fds[idx]? with
  | none => s
  | some (some d) => (s.touch d).handOut t idx d
  | some none =>
    if calloc then
      let d := s.allocated
      handOut { s with fds := s.fds.set idx (some d), allocated := d + 1 } t idx d
    else s

/-- `fd_get`. -/
def fdGet (s : FdTable τ) (fd : Nat) : FdTable τ × Option Nat :=
  match s.fds[fd]?.join with
  | some d =>
    if (s.fd d).magic then
      ((s.touch d).setRef d ((s.fd d).refCount + 1), some d)
    else (s.touch d, none)
  | none => (s, none)

/-- A structure is freed, and its entry is cleared. -/
def free (s : FdTable τ) (d : Nat) : FdTable τ :=
  setFd { s with fds := s.fds.set (s.fds.idxOf (some d)) none } d
    { s.fd d with frees := (s.fd d).frees + 1 }

/-- `fd_put`. -/
def fdPut (s : FdTable τ) (d : Nat) : FdTable τ :=
  let s := (s.touch d).setRef d ((s.fd d).refCount - 1)
  if (s.fd d).refCount = 0 ∧ some d ∈ s.fds then s.free d else s

/-- `close` up to `dfs_file_close`. -/
def close (s : FdTable τ) (t : τ) (fd : Nat) : FdTable τ :=
  match s.fdGet fd with
  | (s, some d) => s.setPc t (.closing d)
  | (s, none) => s

/-- `read` or `write` up to the operation. -/
def use (s : FdTable τ) (t : τ) (fd : Nat) : FdTable τ :=
  match s.fdGet fd with
  | (s, some d) => s.setPc t (.uses d)
  | (s, none) => s

def setLife (s : FdTable τ) (d : Nat) (life : Life) : FdTable τ := s.setFd d { s.fd d with life := life }

/-- The open operation of the file system. -/
def fileOpen (s : FdTable τ) (t : τ) (d : Nat) (result : Bool) : FdTable τ :=
  if result then ((s.touch d).setLife d .opened).setPc t (.opened d)
  else ((s.touch d).setLife d .failed).setPc t (.fails d true)

/-- `dfs_file_close`. -/
def fileClose (s : FdTable τ) (t : τ) (d : Nat) (result : Bool) : FdTable τ :=
  let fd := { s.fd d with closeRuns := (s.fd d).closeRuns + 1 }
  if result then ((s.touch d).setFd d { fd with life := .closed }).setPc t (.closed d true)
  else ((s.touch d).setFd d { fd with closeFails := fd.closeFails + 1 }).setPc t (.closed d false)

def step (s : FdTable τ) (t : τ) (result : Bool) : Option (FdTable τ) :=
  match s.pc t with
  | .opens idx _ =>
    match s.fdGet idx with
    | (s, some d) => some (s.setPc t (.opening d))
    | (s, none) => some (s.setPc t .halted)
  | .opening d => some (s.fileOpen t d result)
  | .opened d => some ((s.fdPut d).setPc t .idle)
  | .fails d again => some ((s.fdPut d).setPc t (if again then .fails d false else .idle))
  | .closing d => some (s.fileClose t d result)
  | .closed d result => some ((s.fdPut d).setPc t (if result then .drops d else .idle))
  | .drops d => some ((s.fdPut d).setPc t .idle)
  | .uses d => some ((s.touch d).setPc t (.used d))
  | .used d => some ((s.fdPut d).setPc t .idle)
  | .idle | .halted => none

def exec (s : FdTable τ) : Act τ → Option (FdTable τ)
  | .open t realloc calloc => if s.pc t = .idle then some (s.fdNew t realloc calloc) else none
  | .close t fd => if s.pc t = .idle then some (s.close t fd) else none
  | .use t fd => if s.pc t = .idle then some (s.use t fd) else none
  | .step t result => s.step t result

/-- There is no table yet. -/
def Initial (s : FdTable τ) : Prop :=
  s.fds = [] ∧ s.allocated = 0 ∧ (∀ t, s.pc t = .idle) ∧ s.repeated = false ∧ s.fault = false ∧
    ∀ d, s.fd d = .zero

/-- How often a thread is to put a structure, with what it has counted itself for. -/
def Pc.puts (d : Nat) : Pc → Nat
  | .opening d' | .opened d' | .closing d' | .drops d' | .uses d' | .used d' => if d' = d then 1 else 0
  | .fails d' again => if d' = d then if again then 2 else 1 else 0
  | .closed d' result => if d' = d then if result then 2 else 1 else 0
  | .idle | .opens .. | .halted => 0

/-- Descriptors and structures are given out and taken back as they are to. -/
structure Kept (s : FdTable τ) : Prop where
  repeated : s.repeated = false
  fault : s.fault = false
  length : s.fds.length ≤ s.dfsFdMax
  frees : ∀ d, (s.fd d).frees ≤ 1
  /-- What is freed has no user, and is not found. -/
  freed : ∀ d, 0 < (s.fd d).frees → (∀ t, (s.pc t).puts d = 0) ∧ some d ∉ s.fds
  /-- What has no user and whose file is not open is freed. -/
  freedAfter : ∀ d < s.allocated, (s.fd d).life = .failed ∨ (s.fd d).life = .closed →
    (∀ t, (s.pc t).puts d = 0) → (s.fd d).frees = 1
  /-- The close operation succeeds once, on a file that was opened. -/
  closeRuns : ∀ d, (s.fd d).closeRuns =
    (s.fd d).closeFails + if (s.fd d).life = .closed then 1 else 0

/-- Where a step may be trusted: a close begins only for a descriptor whose file is open, while no other
close of it runs. -/
def Careful (s : FdTable τ) : Act τ → Prop
  | .close _ fd => ∀ d, s.fds[fd]? = some (some d) →
    (s.fd d).life = .opened ∧ ∀ u, s.pc u ≠ .closing d
  | .open .. | .use .. | .step .. => True

/-- A thread is in the open of a structure's file. -/
def Pc.Opens (d : Nat) : Pc → Prop
  | .opens _ d' | .opening d' => d' = d
  | .idle | .opened _ | .fails .. | .closing _ | .closed .. | .drops _ | .uses _ | .used _ | .halted => False

/-- What holds where a thread is. -/
def At (s : FdTable τ) : Pc → Prop
  | .opens idx d => s.fds[idx]? = some (some d) ∧ (s.fd d).life = .opening
  | .opening d => (s.fd d).life = .opening
  | .closing d => (s.fd d).life = .opened
  | .idle | .opened _ | .fails .. | .closed .. | .drops _ | .uses _ | .used _ | .halted => True

variable [Fintype τ]

/-- The users of a structure, each as often as it is to put it. -/
def users (s : FdTable τ) (d : Nat) : Nat := ∑ t, (s.pc t).puts d

/-- A structure is in the table and counts its users, or it has been freed. -/
def Placed (s : FdTable τ) (d : Nat) : Prop :=
  ((s.fd d).frees = 0 ∧ s.fds[(s.fd d).idx]? = some (some d) ∧
      (∀ i : Nat, s.fds[i]? = some (some d) → i = (s.fd d).idx) ∧ (s.fd d).magic = true ∧
      (s.fd d).refCount = (s.fd d).life.base + s.users d ∧ 0 < (s.fd d).refCount) ∨
    ((s.fd d).frees = 1 ∧ (∀ i : Nat, s.fds[i]? ≠ some (some d)) ∧ (s.fd d).life.base = 0 ∧ s.users d = 0)

/-- What holds while every step meets the condition. -/
structure Sound (s : FdTable τ) : Prop where
  place : ∀ t, s.At (s.pc t)
  opener : ∀ t u d, (s.pc t).Opens d → (s.pc u).Opens d → t = u
  closer : ∀ t u d, s.pc t = .closing d → s.pc u = .closing d → t = u
  placed : ∀ d < s.allocated, s.Placed d
  listed : ∀ i d : Nat, s.fds[i]? = some (some d) → d < s.allocated
  fresh : ∀ d, s.allocated ≤ d → s.fd d = .zero ∧ s.users d = 0
  closeRuns : ∀ d, (s.fd d).closeRuns = (s.fd d).closeFails + if (s.fd d).life = .closed then 1 else 0
  repeated : s.repeated = false
  fault : s.fault = false
  length : s.fds.length ≤ s.dfsFdMax

variable {s s' : FdTable τ} {t : τ} {d : Nat}

section

omit [DecidableEq τ]

theorem puts_le_users (s : FdTable τ) (t : τ) (d : Nat) : (s.pc t).puts d ≤ s.users d :=
  Finset.single_le_sum (f := fun t => (s.pc t).puts d) (fun _ _ => Nat.zero_le _) (Finset.mem_univ t)

theorem puts_eq_zero (h : s.users d = 0) (t : τ) : (s.pc t).puts d = 0 :=
  Nat.le_zero.mp (h ▸ s.puts_le_users t d)

theorem users_eq_zero (h : ∀ t, (s.pc t).puts d = 0) : s.users d = 0 := Finset.sum_eq_zero fun t _ => h t

end

theorem users_change (s' : FdTable τ) (pc : Pc) (hpc : s'.pc = update s.pc t pc) (d : Nat) :
    s'.users d + (s.pc t).puts d = s.users d + pc.puts d := by
  have hsum := sum_change (f := fun t => (s.pc t).puts d) (g := fun t => (s'.pc t).puts d) t
    fun u hu => by rw [hpc, update_of_ne hu]
  have hself : s'.pc t = pc := by rw [hpc, update_self]
  rw [hself] at hsum
  exact hsum

omit [DecidableEq τ] in
/-- Who has a structure has one that is not freed. -/
theorem Sound.alive (h : Sound s) (hpos : 0 < (s.pc t).puts d) : d < s.allocated ∧ (s.fd d).frees = 0 := by
  have husers : 0 < s.users d := Nat.lt_of_lt_of_le hpos (s.puts_le_users t d)
  have hlt : d < s.allocated := by
    by_contra hge
    exact husers.ne' (h.fresh d (Nat.le_of_not_lt hge)).2
  rcases h.placed d hlt with ⟨hfrees, -⟩ | ⟨-, -, -, hzero⟩
  · exact ⟨hlt, hfrees⟩
  · exact absurd hzero husers.ne'

variable {i : Nat}

omit [DecidableEq τ] in
theorem Sound.alive_of_mem (h : Sound s) (hi : s.fds[i]? = some (some d)) :
    d < s.allocated ∧ (s.fd d).frees = 0 := by
  have hlt := h.listed i d hi
  rcases h.placed d hlt with ⟨hfrees, -⟩ | ⟨-, hnone, -⟩
  · exact ⟨hlt, hfrees⟩
  · exact absurd hi (hnone i)

/-- One thread changes its place, and one structure changes. -/
theorem Sound.change (h : Sound s) (pc : Pc) (fd : DfsFd) (hpc : s'.pc = update s.pc t pc)
    (hfd : s'.fd = update s.fd d fd) (hd : d < s'.allocated) (hle : s.allocated ≤ s'.allocated)
    (hnew : ∀ d' ≠ d, d' < s'.allocated → d' < s.allocated)
    (htable : ∀ i d' : Nat, d' ≠ d → (s'.fds[i]? = some (some d') ↔ s.fds[i]? = some (some d')))
    (hself : s'.Placed d) (hputs : ∀ d' ≠ d, pc.puts d' = (s.pc t).puts d') (hat : s'.At pc)
    (hlife : (∀ i : Nat, s.fds[i]? = some (some d) → s'.fds[i]? = some (some d)) ∧ fd.life = (s.fd d).life ∨
      ∀ u ≠ t, ¬ (s.pc u).Opens d ∧ s.pc u ≠ .closing d)
    (hopener : ∀ d', pc.Opens d' → ∀ u ≠ t, ¬ (s.pc u).Opens d')
    (hcloser : ∀ d', pc = .closing d' → ∀ u ≠ t, s.pc u ≠ .closing d')
    (hcloseRuns : fd.closeRuns = fd.closeFails + if fd.life = .closed then 1 else 0)
    (hrepeated : s'.repeated = false) (hfault : s'.fault = false) (hlength : s'.fds.length ≤ s'.dfsFdMax) :
    Sound s' := by
  have hpcself : s'.pc t = pc := by rw [hpc, update_self]
  have hpcother : ∀ u ≠ t, s'.pc u = s.pc u := fun u hu => by rw [hpc, update_of_ne hu]
  have hfdother : ∀ d' ≠ d, s'.fd d' = s.fd d' := fun d' hd' => by rw [hfd, update_of_ne hd']
  have husers : ∀ d' ≠ d, s'.users d' = s.users d' := fun d' hd' => by
    have hsum := users_change s' pc hpc d'
    rw [hputs d' hd'] at hsum
    omega
  refine ⟨fun u => ?_, fun u v d' hu hv => ?_, fun u v d' hu hv => ?_, fun d' hd' => ?_, fun i d' hi => ?_,
    fun d' hd' => ?_, fun d' => ?_, hrepeated, hfault, hlength⟩
  · by_cases hu : u = t
    · rw [hu, hpcself]
      exact hat
    · have hplace := h.place u
      rw [hpcother u hu]
      cases hpcu : s.pc u with
      | opens idx d' =>
        rw [hpcu] at hplace
        by_cases hd' : d' = d
        · subst hd'
          rcases hlife with ⟨hsame, hlife⟩ | hnone
          · exact ⟨hsame idx hplace.1, by rw [hfd, update_self, hlife]; exact hplace.2⟩
          · exact absurd (by rw [hpcu]; rfl) (hnone u hu).1
        · exact ⟨(htable idx d' hd').mpr hplace.1, by rw [hfdother d' hd']; exact hplace.2⟩
      | opening d' =>
        rw [hpcu] at hplace
        by_cases hd' : d' = d
        · subst hd'
          rcases hlife with ⟨-, hlife⟩ | hnone
          · exact (by rw [hfd, update_self, hlife]; exact hplace : (s'.fd d').life = .opening)
          · exact absurd (by rw [hpcu]; rfl) (hnone u hu).1
        · exact (by rw [hfdother d' hd']; exact hplace : (s'.fd d').life = .opening)
      | closing d' =>
        rw [hpcu] at hplace
        by_cases hd' : d' = d
        · subst hd'
          rcases hlife with ⟨-, hlife⟩ | hnone
          · exact (by rw [hfd, update_self, hlife]; exact hplace : (s'.fd d').life = .opened)
          · exact absurd hpcu (hnone u hu).2
        · exact (by rw [hfdother d' hd']; exact hplace : (s'.fd d').life = .opened)
      | idle | opened _ | fails _ _ | closed _ _ | drops _ | uses _ | used _ | halted => trivial
  · by_cases hut : u = t
    · by_cases hvt : v = t
      · rw [hut, hvt]
      · rw [hut, hpcself] at hu
        rw [hpcother v hvt] at hv
        exact absurd hv (hopener d' hu v hvt)
    · by_cases hvt : v = t
      · rw [hvt, hpcself] at hv
        rw [hpcother u hut] at hu
        exact absurd hu (hopener d' hv u hut)
      · rw [hpcother u hut] at hu
        rw [hpcother v hvt] at hv
        exact h.opener u v d' hu hv
  · by_cases hut : u = t
    · by_cases hvt : v = t
      · rw [hut, hvt]
      · rw [hut, hpcself] at hu
        rw [hpcother v hvt] at hv
        exact absurd hv (hcloser d' hu v hvt)
    · by_cases hvt : v = t
      · rw [hvt, hpcself] at hv
        rw [hpcother u hut] at hu
        exact absurd hu (hcloser d' hv u hut)
      · rw [hpcother u hut] at hu
        rw [hpcother v hvt] at hv
        exact h.closer u v d' hu hv
  · by_cases heq : d' = d
    · rw [heq]
      exact hself
    · have hplaced := h.placed d' (hnew d' heq hd')
      unfold Placed at hplaced ⊢
      simpa only [hfdother d' heq, husers d' heq, htable _ d' heq, ne_eq] using hplaced
  · by_cases heq : d' = d
    · rw [heq]
      exact hd
    · exact Nat.lt_of_lt_of_le (h.listed i d' ((htable i d' heq).mp hi)) hle
  · have hne : d' ≠ d := fun heq => Nat.not_le_of_lt hd (heq ▸ hd')
    rw [hfdother d' hne, husers d' hne]
    exact h.fresh d' (hle.trans hd')
  · by_cases heq : d' = d
    · rw [heq, hfd, update_self]
      exact hcloseRuns
    · rw [hfdother d' heq]
      exact h.closeRuns d'

section

omit [DecidableEq τ] [Fintype τ]

theorem setFd_self (s : FdTable τ) (d : Nat) (fd : DfsFd) : (s.setFd d fd).fd d = fd :=
  update_self ..

theorem setFd_of_ne {d' : Nat} (s : FdTable τ) (fd : DfsFd) (hd' : d' ≠ d) : (s.setFd d fd).fd d' = s.fd d' :=
  update_of_ne hd' ..

theorem setRef_life (s : FdTable τ) (d d' : Nat) (n : Int) : ((s.setRef d n).fd d').life = (s.fd d').life := by
  unfold setRef
  by_cases hd' : d' = d
  · rw [hd', setFd_self]
  · rw [setFd_of_ne _ _ hd']

theorem touch_of_frees (h : (s.fd d).frees = 0) : s.touch d = s := by
  unfold touch
  rw [h]
  simp

end

section

variable (h : Sound s) {pc : Pc} {result : Bool}
include h

omit [DecidableEq τ] in
theorem Sound.at_pc (hpc : s.pc t = pc) : s.At pc := hpc ▸ h.place t

omit [DecidableEq τ] in
theorem Sound.fdGet_eq (hi : s.fds[i]? = some (some d)) :
    s.fdGet i = (s.setRef d ((s.fd d).refCount + 1), some d) := by
  obtain ⟨hlt, hfrees⟩ := h.alive_of_mem hi
  rcases h.placed d hlt with ⟨-, -, -, hmagic, -⟩ | ⟨hone, -⟩
  · unfold fdGet
    rw [hi]
    simp only [join_some, hmagic, if_true, touch_of_frees hfrees]
  · omega

theorem Sound.get (hi : s.fds[i]? = some (some d))
    (hold : ∀ d', (s.pc t).puts d' = 0) (hputs : ∀ d', pc.puts d' = if d = d' then 1 else 0)
    (hat : s.At pc) (hopener : ∀ d', pc.Opens d' → ∀ u ≠ t, ¬ (s.pc u).Opens d')
    (hcloser : ∀ d', pc = .closing d' → ∀ u ≠ t, s.pc u ≠ .closing d') :
    Sound ((s.setRef d ((s.fd d).refCount + 1)).setPc t pc) := by
  obtain ⟨hlt, hfrees⟩ := h.alive_of_mem hi
  have husers := users_change (s := s)
    ((s.setRef d ((s.fd d).refCount + 1)).setPc t pc) pc rfl d
  rw [hold, hputs, if_pos rfl, Nat.add_zero] at husers
  refine h.change _ _ rfl rfl hlt (Nat.le_refl _) (fun d' _ => id) (fun i d' _ => Iff.rfl) ?_
    (fun d' hd' => ?_) ?_ (.inl ⟨fun i => id, rfl⟩) hopener hcloser (h.closeRuns d) h.repeated h.fault h.length
  · rcases h.placed d hlt with ⟨-, hidx, hone, hmagic, hcount, hpos⟩ | ⟨hone, -⟩
    · have hself : ((s.setRef d ((s.fd d).refCount + 1)).setPc t pc).fd d =
          { s.fd d with refCount := (s.fd d).refCount + 1 } := update_self ..
      refine .inl ?_
      rw [hself]
      refine ⟨hfrees, hidx, hone, hmagic, ?_, ?_⟩
      · change (s.fd d).refCount + 1 = _
        push_cast
        omega
      · change 0 < (s.fd d).refCount + 1
        omega
    · omega
  · rw [hold, hputs, if_neg (Ne.symm hd')]
  · cases pc with
    | opens idx d' => exact ⟨hat.1, (setRef_life ..).trans hat.2⟩
    | opening d' | closing d' => exact (setRef_life ..).trans hat
    | idle | opened _ | fails _ _ | closed _ _ | drops _ | uses _ | used _ | halted => trivial

omit [DecidableEq τ] in
/-- A structure without a reference for its file is in no open and in no close operation. -/
theorem Sound.not_opens (hbase : (s.fd d).life.base = 0) (u : τ) :
    ¬ (s.pc u).Opens d ∧ s.pc u ≠ .closing d := by
  have hplace := h.place u
  refine ⟨fun hu => ?_, fun hu => ?_⟩
  · cases hpcu : s.pc u with
    | opens idx d' =>
      rw [hpcu] at hu hplace
      obtain rfl : d' = d := hu
      rw [hplace.2] at hbase
      cases hbase
    | opening d' =>
      rw [hpcu] at hu hplace
      obtain rfl : d' = d := hu
      rw [show (s.fd d').life = .opening from hplace] at hbase
      cases hbase
    | idle | opened _ | fails _ _ | closing _ | closed _ _ | drops _ | uses _ | used _ | halted =>
      rw [hpcu] at hu
      exact hu
  · rw [hu] at hplace
    rw [show (s.fd d).life = .opened from hplace] at hbase
    cases hbase

/-- A thread puts a structure; the last one frees it. -/
theorem Sound.put (hself : (s.pc t).puts d = pc.puts d + 1)
    (hother : ∀ d' ≠ d, pc.puts d' = (s.pc t).puts d') (hat : ∀ s' : FdTable τ, s'.At pc)
    (hopens : ∀ d', ¬ pc.Opens d') (hcloses : ∀ d', pc ≠ .closing d') : Sound ((s.fdPut d).setPc t pc) := by
  obtain ⟨hlt, hfrees⟩ := h.alive (t := t) (d := d) (by omega)
  obtain ⟨-, hidx, hone, hmagic, hcount, hpos⟩ := (h.placed d hlt).resolve_right fun hright => by
    omega
  have hle := s.puts_le_users t d
  unfold fdPut
  rw [touch_of_frees hfrees]
  have hfd : (s.setRef d ((s.fd d).refCount - 1)).fd d = { s.fd d with refCount := (s.fd d).refCount - 1 } :=
    setFd_self ..
  dsimp only
  rw [hfd]
  split_ifs with hlast
  · obtain ⟨hzero, hmem⟩ := hlast
    change (s.fd d).refCount - 1 = 0 at hzero
    have hbase : (s.fd d).life.base = 0 := by omega
    have hindex : s.fds.idxOf (some d) = (s.fd d).idx := hone _ (List.getElem?_idxOf hmem)
    have hset : ∀ i d' : Nat, (s.fds.set (s.fds.idxOf (some d)) none)[i]? = some (some d') ↔
        i ≠ (s.fd d).idx ∧ s.fds[i]? = some (some d') := by
      intro i d'
      rw [hindex, List.getElem?_set]
      split_ifs with heq hlen
      · simp [heq]
      · simp [heq]
      · simp [Ne.symm heq]
    have husers := users_change (s := s) (((s.setRef d ((s.fd d).refCount - 1)).free d).setPc t pc)
      pc rfl d
    refine h.change _ { s.fd d with refCount := (s.fd d).refCount - 1, frees := (s.fd d).frees + 1 } rfl ?_
      hlt (Nat.le_refl _) (fun d' _ => id) (fun i d' hd' => (hset i d').trans ⟨And.right, fun hi => ⟨?_, hi⟩⟩)
      (.inr ⟨?_, fun i hi => ?_, ?_, ?_⟩) hother (hat _) (.inr fun u _ => h.not_opens hbase u)
      (fun d' hd' => absurd hd' (hopens d')) (fun d' hd' => absurd hd' (hcloses d')) (h.closeRuns d)
      h.repeated h.fault ((length_set ..).trans_le h.length)
    · change update (update s.fd d _) d _ = _
      rw [update_idem, hfd]
    · rintro rfl
      rw [hidx] at hi
      exact hd' (some.inj (some.inj hi)).symm
    · change (((s.setRef d ((s.fd d).refCount - 1)).free d).fd d).frees = 1
      rw [free, setFd_self, hfd, hfrees]
    · exact ((hset i d).mp hi).1 (hone i ((hset i d).mp hi).2)
    · change (((s.setRef d ((s.fd d).refCount - 1)).free d).fd d).life.base = 0
      rw [free, setFd_self, hfd]
      exact hbase
    · omega
  · have husers := users_change (s := s) ((s.setRef d ((s.fd d).refCount - 1)).setPc t pc) pc rfl d
    have hne : (s.fd d).refCount - 1 ≠ 0 := fun hzero => hlast ⟨hzero, mem_of_getElem? hidx⟩
    refine h.change _ _ rfl rfl hlt (Nat.le_refl _) (fun d' _ => id) (fun i d' _ => Iff.rfl) (.inl ?_) hother
      (hat _) (.inl ⟨fun i => id, rfl⟩) (fun d' hd' => absurd hd' (hopens d'))
      (fun d' hd' => absurd hd' (hcloses d')) (h.closeRuns d) h.repeated h.fault h.length
    have hfd' : ((s.setRef d ((s.fd d).refCount - 1)).setPc t pc).fd d =
        { s.fd d with refCount := (s.fd d).refCount - 1 } := hfd
    rw [hfd']
    refine ⟨hfrees, hidx, hone, hmagic, ?_, ?_⟩
    · change (s.fd d).refCount - 1 = ((s.fd d).life.base : Int) + _
      omega
    · change 0 < (s.fd d).refCount - 1
      omega

/-- An operation of the file system on a structure ends. -/
theorem Sound.operate (pc : Pc) (fd : DfsFd) (hpos : 0 < (s.pc t).puts d)
    (hputs : ∀ d' ≠ d, pc.puts d' = (s.pc t).puts d')
    (hfd : fd.frees = (s.fd d).frees ∧ fd.idx = (s.fd d).idx ∧ fd.magic = (s.fd d).magic ∧
      fd.refCount = (s.fd d).refCount)
    (hbase : fd.life.base + pc.puts d = (s.fd d).life.base + (s.pc t).puts d)
    (hat : ∀ s' : FdTable τ, s'.At pc)
    (hlife : fd.life = (s.fd d).life ∨ ∀ u ≠ t, ¬ (s.pc u).Opens d ∧ s.pc u ≠ .closing d)
    (hopens : ∀ d', ¬ pc.Opens d') (hcloses : ∀ d', pc ≠ .closing d')
    (hcloseRuns : fd.closeRuns = fd.closeFails + if fd.life = .closed then 1 else 0) :
    Sound (((s.touch d).setFd d fd).setPc t pc) := by
  obtain ⟨hlt, hfrees⟩ := h.alive hpos
  obtain ⟨-, hidx, hone, hmagic, hcount, hpos'⟩ := (h.placed d hlt).resolve_right fun hright => by
    omega
  rw [touch_of_frees hfrees]
  have husers := users_change (s := s) ((s.setFd d fd).setPc t pc) pc rfl d
  have hself : ((s.setFd d fd).setPc t pc).fd d = fd := setFd_self ..
  refine h.change _ _ rfl rfl hlt (Nat.le_refl _) (fun d' _ => id) (fun i d' _ => Iff.rfl) (.inl ?_) hputs
    (hat _) (hlife.imp_left fun hsame => ⟨fun i => id, hsame⟩) (fun d' hd' => absurd hd' (hopens d'))
    (fun d' hd' => absurd hd' (hcloses d')) hcloseRuns h.repeated h.fault h.length
  obtain ⟨hfdFrees, hfdIdx, hfdMagic, hfdCount⟩ := hfd
  rw [hself, hfdFrees, hfdIdx, hfdMagic, hfdCount]
  exact ⟨hfrees, hidx, hone, hmagic, by omega, hpos'⟩

theorem Sound.fileOpen (hpc : s.pc t = .opening d) :
    Sound (s.fileOpen t d result) := by
  have hlife : (s.fd d).life = .opening := h.at_pc hpc
  have hputs : ∀ d', (s.pc t).puts d' = if d = d' then 1 else 0 := fun d' => by rw [hpc]; rfl
  have hruns := h.closeRuns d
  rw [hlife] at hruns
  have hnone : ∀ u ≠ t, ¬ (s.pc u).Opens d ∧ s.pc u ≠ .closing d := by
    refine fun u hu => ⟨fun hopens => hu (h.opener u t d hopens (by rw [hpc]; rfl)), fun hcloses => ?_⟩
    have hplace := h.at_pc hcloses
    cases hlife.symm.trans hplace
  unfold FdTable.fileOpen setLife
  split_ifs with hresult
  · refine h.operate _ { s.fd d with life := .opened } (by rw [hputs, if_pos rfl]; exact Nat.one_pos)
      (fun d' hd' => ?_) ⟨rfl, rfl, rfl, rfl⟩ ?_ (fun _ => trivial) (.inr hnone) (fun d' => id)
      (fun d' => nofun) hruns
    · rw [hputs]
      rfl
    · rw [hputs, hlife]
      rfl
  · refine h.operate _ { s.fd d with life := .failed } (by rw [hputs, if_pos rfl]; exact Nat.one_pos)
      (fun d' hd' => ?_) ⟨rfl, rfl, rfl, rfl⟩ ?_ (fun _ => trivial) (.inr hnone) (fun d' => id)
      (fun d' => nofun) hruns
    · rw [hputs, if_neg (Ne.symm hd')]
      exact if_neg (Ne.symm hd')
    · rw [hputs, hlife]
      simp [Pc.puts, Life.base]

theorem Sound.fileClose (hpc : s.pc t = .closing d) :
    Sound (s.fileClose t d result) := by
  have hlife : (s.fd d).life = .opened := h.at_pc hpc
  have hputs : ∀ d', (s.pc t).puts d' = if d = d' then 1 else 0 := fun d' => by rw [hpc]; rfl
  have hruns := h.closeRuns d
  rw [hlife] at hruns
  have hnone : ∀ u ≠ t, ¬ (s.pc u).Opens d ∧ s.pc u ≠ .closing d := by
    refine fun u hu => ⟨fun hopens => ?_, fun hcloses => hu (h.closer u t d hcloses hpc)⟩
    have hplace := h.place u
    cases hpcu : s.pc u with
    | opens idx d' =>
      rw [hpcu] at hopens hplace
      obtain rfl : d' = d := hopens
      cases hlife.symm.trans hplace.2
    | opening d' =>
      rw [hpcu] at hopens hplace
      obtain rfl : d' = d := hopens
      cases hlife.symm.trans hplace
    | idle | opened _ | fails _ _ | closing _ | closed _ _ | drops _ | uses _ | used _ | halted =>
      rw [hpcu] at hopens
      exact hopens
  unfold FdTable.fileClose
  split_ifs with hresult
  · refine h.operate _ _ (by rw [hputs, if_pos rfl]; exact Nat.one_pos) (fun d' hd' => ?_) ⟨rfl, rfl, rfl, rfl⟩ ?_
      (fun _ => trivial) (.inr hnone) (fun d' => id) (fun d' => nofun) (congrArg (· + 1) hruns)
    · rw [hputs, if_neg (Ne.symm hd')]
      exact if_neg (Ne.symm hd')
    · rw [hputs, hlife]
      simp [Pc.puts, Life.base]
  · refine h.operate _ _ (by rw [hputs, if_pos rfl]; exact Nat.one_pos) (fun d' hd' => ?_) ⟨rfl, rfl, rfl, rfl⟩ ?_
      (fun _ => trivial) (.inr hnone) (fun d' => id) (fun d' => nofun) ?_
    · rw [hputs, if_neg (Ne.symm hd')]
      exact if_neg (Ne.symm hd')
    · rw [hputs]
      simp [Pc.puts, Life.base]
    · change (s.fd d).closeRuns + 1 = (s.fd d).closeFails + 1 + if (s.fd d).life = .closed then 1 else 0
      rw [hlife, hruns]
      rfl

end

omit [DecidableEq τ] [Fintype τ] in
theorem fdGet_none (hi : ∀ d, s.fds[i]? ≠ some (some d)) : s.fdGet i = (s, none) := by
  unfold fdGet
  cases hget : s.fds[i]? with
  | none => rfl
  | some entry =>
    cases entry with
    | none => rfl
    | some d => exact absurd hget (hi d)

theorem Sound.close (h : Sound s) (hpc : s.pc t = .idle)
    (hcareful : s.Careful (.close t i)) : Sound (s.close t i) := by
  unfold FdTable.close
  by_cases hi : ∃ d, s.fds[i]? = some (some d)
  · obtain ⟨d, hi⟩ := hi
    obtain ⟨hlife, hnone⟩ := hcareful d hi
    rw [h.fdGet_eq hi]
    refine h.get hi (fun d' => by rw [hpc]; rfl) (fun d' => rfl) hlife (fun d' hd' => hd'.elim)
      fun d' hd' u _ => ?_
    obtain rfl : d = d' := Pc.closing.inj hd'
    exact hnone u
  · rw [fdGet_none fun d hd => hi ⟨d, hd⟩]
    exact h

theorem Sound.use (h : Sound s) (hpc : s.pc t = .idle) : Sound (s.use t i) := by
  unfold FdTable.use
  by_cases hi : ∃ d, s.fds[i]? = some (some d)
  · obtain ⟨d, hi⟩ := hi
    rw [h.fdGet_eq hi]
    exact h.get hi (fun d' => by rw [hpc]; rfl) (fun d' => rfl) trivial (fun d' hd' => hd'.elim)
      fun d' => nofun
  · rw [fdGet_none fun d hd => hi ⟨d, hd⟩]
    exact h

/-- A thread that is to put a structure once puts it. -/
theorem Sound.putLast {d : Nat} (h : Sound s)
    (hputs : ∀ d', (s.pc t).puts d' = if d = d' then 1 else 0) :
    Sound ((s.fdPut d).setPc t .idle) := by
  refine h.put ?_ (fun d' hd' => ?_) (fun _ => trivial) (fun _ => id) fun _ => nofun
  · rw [hputs]
    exact if_pos rfl
  · rw [hputs]
    exact (if_neg hd'.symm).symm

theorem Sound.step {result : Bool} (h : Sound s) (hstep : s.step t result = some s') : Sound s' := by
  have hput : ∀ {d : Nat} {pc : Pc}, (s.pc t).puts d = pc.puts d + 1 →
      (∀ d' ≠ d, pc.puts d' = (s.pc t).puts d') → (∀ s' : FdTable τ, s'.At pc) → (∀ d', ¬ pc.Opens d') →
        (∀ d', pc ≠ .closing d') → Sound ((s.fdPut d).setPc t pc) := h.put
  unfold FdTable.step at hstep
  split at hstep
  · next idx d hpc =>
    have hplace := h.at_pc hpc
    rw [h.fdGet_eq hplace.1] at hstep
    cases hstep
    refine h.get hplace.1 (fun d' => by rw [hpc]; rfl) (fun d' => rfl) hplace.2 (fun d' hd' u hu hopens => ?_)
      fun d' => nofun
    exact hu (h.opener u t d' hopens (by rw [hpc]; exact hd'))
  · next d hpc => exact some.inj hstep ▸ h.fileOpen hpc
  · next d hpc =>
    cases hstep
    exact h.putLast fun d' => by rw [hpc]; rfl
  · next d again hpc =>
    cases hstep
    cases again with
    | true =>
      exact hput (by rw [hpc]; simp [Pc.puts]) (fun d' hd' => by rw [hpc]; simp [Pc.puts, hd'.symm])
        (fun _ => trivial) (fun _ => id) fun _ => nofun
    | false =>
      exact h.putLast fun d' => by rw [hpc]; rfl
  · next d hpc => exact some.inj hstep ▸ h.fileClose hpc
  · next d result hpc =>
    cases hstep
    cases result with
    | true =>
      exact hput (by rw [hpc]; simp [Pc.puts]) (fun d' hd' => by rw [hpc]; simp [Pc.puts, hd'.symm])
        (fun _ => trivial) (fun _ => id) fun _ => nofun
    | false =>
      exact h.putLast fun d' => by rw [hpc]; rfl
  · next d hpc =>
    cases hstep
    exact h.putLast fun d' => by rw [hpc]; rfl
  · next d hpc =>
    cases hstep
    have hop := h.operate (t := t) (.used d) (s.fd d) (by rw [hpc]; simp [Pc.puts])
      (fun d' _ => by rw [hpc]; rfl) ⟨rfl, rfl, rfl, rfl⟩ (by rw [hpc]; rfl) (fun _ => trivial) (.inl rfl)
      (fun _ => id) (fun _ => nofun) (h.closeRuns d)
    have hsame : (s.touch d).setFd d (s.fd d) = s.touch d :=
      congrArg (fun fd => { s.touch d with fd := fd }) (update_eq_self d s.fd)
    exact hsame ▸ hop
  · next d hpc =>
    cases hstep
    exact h.putLast fun d' => by rw [hpc]; rfl
  all_goals cases hstep

theorem getElem?_append_none {fds : List (Option Nat)} (k i d : Nat) :
    (fds ++ List.replicate k none)[i]? = some (some d) ↔ fds[i]? = some (some d) := by
  rw [List.getElem?_append]
  split_ifs with hi
  · exact Iff.rfl
  · rw [List.getElem?_replicate, List.getElem?_eq_none (Nat.le_of_not_lt hi)]
    split_ifs <;> simp

section

variable (h : Sound s)
include h

omit [DecidableEq τ] in
theorem Sound.grow (realloc : Bool) : Sound (s.grow realloc) := by
  unfold FdTable.grow
  dsimp only
  split_ifs with hgrow
  · refine ⟨fun t => ?_, h.opener, h.closer, fun d hd => ?_, fun i d hi => ?_, h.fresh, h.closeRuns, h.repeated,
      h.fault, ?_⟩
    · have hplace := h.place t
      cases hpc : s.pc t with
      | opens idx d =>
        rw [hpc] at hplace
        exact ⟨(getElem?_append_none ..).mpr hplace.1, hplace.2⟩
      | opening d | closing d =>
        rw [hpc] at hplace
        exact hplace
      | idle | opened _ | fails _ _ | closed _ _ | drops _ | uses _ | used _ | halted => trivial
    · have hplaced := h.placed d hd
      unfold Placed at hplaced ⊢
      simp only [getElem?_append_none, ne_eq] at hplaced ⊢
      exact hplaced
    · exact h.listed i d ((getElem?_append_none ..).mp hi)
    · change (s.fds ++ _).length ≤ s.dfsFdMax
      rw [length_append, length_replicate]
      omega
  · exact h

omit [DecidableEq τ] in
theorem Sound.findEmpty_ne (realloc : Bool) (d : Nat) :
    (s.grow realloc).fds[s.findEmpty]? ≠ some (some d) := by
  have hold : s.fds[s.findEmpty]? ≠ some (some d) := by
    intro hi
    obtain ⟨hlt, heq⟩ := List.getElem?_eq_some_iff.mp hi
    have htest : (s.fds[s.findEmpty]).all fun d => decide ((s.fd d).refCount = 0) := findIdx_getElem
    rw [heq] at htest
    have hzero : (s.fd d).refCount = 0 := of_decide_eq_true htest
    rcases h.placed d (h.listed _ d hi) with ⟨-, -, -, -, -, hpos⟩ | ⟨-, hnone, -⟩
    · omega
    · exact hnone _ hi
  unfold FdTable.grow
  dsimp only
  split_ifs with hgrow
  · exact fun hi => hold ((getElem?_append_none ..).mp hi)
  · exact hold

theorem Sound.handOut {idx : Nat} (hidx : s.fds[idx]? = some none) (hpc : s.pc t = .idle) :
    Sound (FdTable.handOut { s with fds := s.fds.set idx (some s.allocated), allocated := s.allocated + 1 } t
      idx s.allocated) := by
  let s₁ : FdTable τ := { s with fds := s.fds.set idx (some s.allocated), allocated := s.allocated + 1 }
  have hlt := (List.getElem?_eq_some_iff.mp hidx).1
  obtain ⟨hzero, hnone⟩ := h.fresh s.allocated (Nat.le_refl _)
  have hset : ∀ i d' : Nat, d' ≠ s.allocated →
      ((s.fds.set idx (some s.allocated))[i]? = some (some d') ↔ s.fds[i]? = some (some d')) := by
    intro i d' hd'
    rw [List.getElem?_set]
    split_ifs with heq
    · subst heq
      simp [hidx, Ne.symm hd']
    · rfl
  have hclosed : ¬ Unclosed s₁ idx := by
    rintro ⟨d', hd', heq, hlife⟩
    by_cases hnew : d' = s.allocated
    · rw [hnew, hzero] at hlife
      rcases hlife with hlife | hlife <;> cases hlife
    · rcases h.placed d' (Nat.lt_of_le_of_ne (Nat.le_of_lt_succ hd') hnew) with ⟨-, hin, -⟩ | ⟨-, -, hbase, -⟩
      · rw [heq, hidx] at hin
        cases hin
      · rcases hlife with hlife | hlife
        all_goals
          rw [hlife] at hbase
          cases hbase
  have hnobody : ∀ u, ¬ (s.pc u).Opens s.allocated ∧ s.pc u ≠ .closing s.allocated := fun u =>
    h.not_opens (by rw [hzero]; rfl) u
  have hself : (FdTable.handOut s₁ t idx s.allocated).fd s.allocated =
      { magic := true, refCount := 1, idx := idx, life := .opening, closeRuns := 0, closeFails := 0,
        frees := (s.fd s.allocated).frees } := update_self ..
  refine h.change (t := t) (d := s.allocated) (.opens idx s.allocated) _ rfl rfl (Nat.lt_succ_self _)
    (Nat.le_succ _) (fun d' hd' hlt => Nat.lt_of_le_of_ne (Nat.le_of_lt_succ hlt) hd') hset (.inl ?_)
    (fun d' _ => by rw [hpc]; rfl) ?_ (.inr fun u _ => hnobody u) (fun d' hd' u _ hu => ?_) (fun d' => nofun)
    rfl ?_ h.fault ((length_set ..).trans_le h.length)
  · have husers := users_change (s := s) (FdTable.handOut s₁ t idx s.allocated) (t := t)
      (.opens idx s.allocated) rfl s.allocated
    rw [hnone, hpc] at husers
    rw [hself]
    refine ⟨by rw [hzero]; rfl, List.getElem?_set_self hlt, fun i hi => ?_, rfl, ?_, Int.one_pos⟩
    · by_contra hne
      have hold : s.fds[i]? = some (some s.allocated) := by
        rwa [← List.getElem?_set_ne (Ne.symm hne)]
      exact Nat.lt_irrefl _ (h.listed i _ hold)
    · have hzero' : (FdTable.handOut s₁ t idx s.allocated).users
          s.allocated = 0 := husers
      rw [hzero']
      rfl
  · exact ⟨List.getElem?_set_self hlt, congrArg DfsFd.life hself⟩
  · obtain rfl : s.allocated = d' := hd'
    exact (hnobody u).1 hu
  · exact Bool.or_eq_false_iff.mpr ⟨h.repeated, decide_eq_false hclosed⟩

theorem Sound.fdNew {realloc calloc : Bool} (hpc : s.pc t = .idle) :
    Sound (s.fdNew t realloc calloc) := by
  have hgrow := h.grow realloc
  have hpc' : (s.grow realloc).pc t = .idle := by
    rw [← hpc]
    unfold FdTable.grow
    dsimp only
    split_ifs <;> rfl
  unfold FdTable.fdNew
  dsimp only
  cases hentry : (s.grow realloc).fds[s.findEmpty]? with
  | none => exact hgrow
  | some entry =>
    cases entry with
    | some d => exact absurd hentry (h.findEmpty_ne realloc d)
    | none =>
      split_ifs with hcalloc
      · exact hgrow.handOut hentry hpc'
      · exact hgrow

theorem Sound.exec {a : Act τ} (hcareful : s.Careful a) (hexec : s.exec a = some s') :
    Sound s' := by
  cases a with
  | «open» t realloc calloc =>
    obtain ⟨hpc, heq⟩ := ite_none_right_eq_some.mp hexec
    exact some.inj heq ▸ h.fdNew hpc
  | close t fd =>
    obtain ⟨hpc, heq⟩ := ite_none_right_eq_some.mp hexec
    exact some.inj heq ▸ h.close hpc hcareful
  | use t fd =>
    obtain ⟨hpc, heq⟩ := ite_none_right_eq_some.mp hexec
    exact some.inj heq ▸ h.use hpc
  | step t result => exact h.step hexec

omit [DecidableEq τ] in
theorem Sound.kept : Kept s := by
  have hplaced : ∀ d, 0 < (s.fd d).frees → s.Placed d := by
    intro d hpos
    refine h.placed d ?_
    by_contra hge
    rw [(h.fresh d (Nat.le_of_not_lt hge)).1] at hpos
    cases hpos
  refine ⟨h.repeated, h.fault, h.length, fun d => ?_, fun d hpos => ?_, fun d hd hlife hnone => ?_, h.closeRuns⟩
  · by_contra hlt
    rcases hplaced d (by omega) with ⟨hfrees, -⟩ | ⟨hfrees, -⟩
    · omega
    · omega
  · rcases hplaced d hpos with ⟨hfrees, -⟩ | ⟨-, hnone, -, husers⟩
    · omega
    · refine ⟨fun t => puts_eq_zero husers t, fun hmem => ?_⟩
      obtain ⟨i, hi⟩ := mem_iff_getElem?.mp hmem
      exact hnone i hi
  · rcases h.placed d hd with ⟨-, -, -, -, hcount, hpos⟩ | ⟨hfrees, -⟩
    · rw [users_eq_zero hnone] at hcount
      rcases hlife with hlife | hlife
      all_goals
        rw [hcount, hlife] at hpos
        exact absurd hpos (by decide)
    · exact hfrees

end

omit [DecidableEq τ] in
theorem Initial.sound (h : Initial s) : Sound s := by
  obtain ⟨hfds, hallocated, hpc, hrepeated, hfault, hzero⟩ := h
  refine ⟨fun t => by rw [hpc]; trivial, fun t u d ht => ?_, fun t u d ht => ?_, fun d hd => ?_, fun i d hi => ?_,
    fun d _ => ⟨hzero d, users_eq_zero fun t => by rw [hpc]; rfl⟩, fun d => by rw [hzero]; rfl, hrepeated, hfault, ?_⟩
  · rw [hpc] at ht
    exact ht.elim
  · rw [hpc] at ht
    cases ht
  · omega
  · rw [hfds] at hi
    cases hi
  · rw [hfds]
    exact Nat.zero_le _

/-- While every close begins for an open file of which no other close runs, descriptors are handed out once,
every structure is freed once, after its last user, and files are closed once. -/
theorem reachable_fdsKept (s : FdTable τ)
    (h : Reachable Initial (Within (fun s a s' => s.exec a = some s') Careful) s) : Kept s := by
  have hsound : Sound s :=
    h.inductWithin (·.sound) (·.exec)
  exact hsound.kept

instance decidableCareful (s : FdTable τ) (a : Act τ) : Decidable (s.Careful a) :=
  match a with
  | .close _ fd =>
    match hfd : s.fds[fd]? with
    | some (some d) =>
      decidable_of_iff ((s.fd d).life = .opened ∧ ∀ u, s.pc u ≠ .closing d) (by simp [Careful, hfd])
    | some none | none => .isTrue (by simp [Careful, hfd])
  | .open .. | .use .. | .step .. => .isTrue trivial

/-- No table yet, for at most five files. -/
def fdTable5 : FdTable (Fin 2) where
  dfsFdMax := 5
  fds := []
  fd := fun _ => .zero
  allocated := 0
  pc := fun _ => .idle
  repeated := false
  fault := false

theorem fdTable5_initial : Initial fdTable5 := ⟨rfl, rfl, fun _ => rfl, rfl, rfl, fun _ => rfl⟩

/-- The first thread opens a file. -/
def opens0 : List (Act (Fin 2)) := [.open 0 true true, .step 0 true, .step 0 true, .step 0 true]

/-- A close while the other thread reads: the last one frees the structure. -/
theorem reachable_fdsKept_read : ∃ s : FdTable (Fin 2), (s.fd 0).frees = 1 ∧ (s.fd 0).closeRuns = 1 ∧ Kept s := by
  have hrun : ∃ s ∈ runWithin exec Careful fdTable5 (opens0 ++ ([.use 1 0, .close 0 0, .step 0 true,
      .step 0 true, .step 0 true, .step 1 true, .step 1 true] : List (Act (Fin 2)))),
      (s.fd 0).frees = 1 ∧ (s.fd 0).closeRuns = 1 := by decide +kernel
  obtain ⟨s, hs, heq⟩ := Reachable.of_runWithin fdTable5_initial hrun
  exact ⟨s, heq.1, heq.2, reachable_fdsKept s hs⟩

/-- Two threads close one descriptor: the close operation runs twice, and the structure is put after it has
been freed. -/
theorem closed_twice : ∃ s : FdTable (Fin 2), Reachable Initial (fun s a s' => exec s a = some s') s ∧
    (s.fd 0).closeRuns = 2 ∧ (s.fd 0).closeFails = 0 ∧ s.fault = true ∧ ¬ Kept s := by
  have hrun : ∃ s ∈ runAll exec fdTable5 (opens0 ++ ([.close 0 0, .close 1 0, .step 0 true,
      .step 1 true, .step 0 true, .step 0 true, .step 1 true, .step 1 true] : List (Act (Fin 2)))),
      (s.fd 0).closeRuns = 2 ∧ (s.fd 0).closeFails = 0 ∧ s.fault = true := by decide +kernel
  obtain ⟨s, hs, hruns, hfails, hfault⟩ := Reachable.of_runAll fdTable5_initial hrun
  refine ⟨s, hs, hruns, hfails, hfault, fun hkept => ?_⟩
  rw [hkept.fault] at hfault
  cases hfault

end FdTable

end RtKernel.Dfs
