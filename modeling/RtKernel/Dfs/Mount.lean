import Mathlib.Data.List.Infix
import RtKernel.Core.Run

/-!
# Mounted file systems

The table of mounted file systems has an entry for each, with the path on which it is mounted;
unmounting leaves holes in it. Paths are normalised before they are stored or looked up. A
lookup goes through the table for the longest path that is a prefix.
-/

open List Option

namespace RtKernel.Dfs

/-- The characters of a string, without its end. -/
abbrev Path := List Char

def skipSlashes (src : Path) : Path := src.dropWhile (· = '/')

theorem skipSlashes_length (src : Path) : (skipSlashes src).length ≤ src.length :=
  (dropWhile_sublist _).length_le

theorem length_of_dropWhile {src rest : Path} {c : Char} {p : Char → Bool}
    (h : src.dropWhile p = c :: rest) : rest.length < src.length := by
  have hle := (dropWhile_sublist p (l := src)).length_le
  rw [h] at hle
  exact hle

/-- The loop of `dfs_normalize_path`: what is left of the source, and the destination, with its last
character first. -/
def normalizeLoop (src dst : Path) : Option Path :=
  match src with
  | ['.'] => some dst
  | '.' :: '/' :: rest => normalizeLoop (skipSlashes rest) dst
  | ['.', '.'] =>
    match dst with
    | [] => none
    | _ :: dst => normalizeLoop [] (dst.dropWhile (· ≠ '/'))
  | '.' :: '.' :: '/' :: rest =>
    match dst with
    | [] => none
    | _ :: dst => normalizeLoop (skipSlashes rest) (dst.dropWhile (· ≠ '/'))
  | src =>
    let name := src.takeWhile (· ≠ '/')
    match _h : src.dropWhile (· ≠ '/') with
    | [] => some (name.reverse ++ dst)
    | _ :: rest => normalizeLoop (skipSlashes rest) ('/' :: (name.reverse ++ dst))
termination_by src.length
decreasing_by
  · have hle := skipSlashes_length rest
    simp only [List.length_cons]
    omega
  · simp
  · have hle := skipSlashes_length rest
    simp only [List.length_cons]
    omega
  · have hle := skipSlashes_length rest
    have hlt := length_of_dropWhile _h
    omega

/-- The last slash is removed, and an empty path is the root. -/
def finish : Path → Path
  | [] => ['/']
  | ['/'] => ['/']
  | '/' :: dst => dst.reverse
  | dst => dst.reverse

/-- `dfs_normalize_path` without a directory: a relative path is taken from the working directory, if
there is one. -/
def normalizePath (workingDirectory : Option Path) (malloc : Bool) (filename : Path) : Option Path :=
  let fullpath :=
    if filename.head? = some '/' then some filename
    else workingDirectory.map (· ++ '/' :: filename)
  if malloc then fullpath.bind fun src => (normalizeLoop src []).map finish else none

example : normalizePath none true "//a/../b".toList = some "/b".toList := by decide +kernel

/-- `struct dfs_filesystem_ops`: its name, and which operations there are. -/
structure Ops where
  name : Path
  mount : Bool
  unmount : Bool
  deriving DecidableEq

/-- `struct dfs_filesystem`. -/
structure Filesystem (δ : Type*) where
  path : Option Path
  ops : Option Ops
  devId : Option δ
  deriving DecidableEq

/-- An entry that has been cleared. -/
def Filesystem.zero {δ : Type*} : Filesystem δ := { path := none, ops := none, devId := none }

/-- `filesystem_table` and what a mount looks at. -/
structure Mounts (δ : Type*) where
  filesystemTable : List (Filesystem δ)
  filesystemOperationTable : List (Option Ops)
  /-- With `DFS_USING_WORKDIR`. -/
  workingDirectory : Option Path

inductive Errno
  | enodev
  | enosys
  | enotdir
  | einval
  | enospc
  deriving DecidableEq

/-- How what a mount calls answers. -/
structure Answers where
  malloc : Bool
  /-- `dfs_file_open` of the directory. -/
  opens : Bool
  /-- `rt_device_open`. -/
  deviceOpens : Bool
  /-- The operation of the file system. -/
  mounts : Bool

namespace Mounts

variable {δ : Type*}

def findOps (s : Mounts δ) (filesystemtype : Path) : Option Ops :=
  (s.filesystemOperationTable.find? fun ops => ops.any fun ops => ops.name = filesystemtype).join

/-- The search for an entry that is empty, with the index of the entries left. A path that is mounted
is refused. -/
def findEmpty (path : Path) : List (Filesystem δ) → Nat → Option Nat → Except Errno Nat
  | [], _, fs => fs.elim (.error .enospc) .ok
  | iter :: rest, i, fs =>
    if iter.ops = none then findEmpty path rest (i + 1) (fs.or (some i))
    else if iter.path = some path then .error .einval
    else findEmpty path rest (i + 1) fs

/-- The root and `/dev` need not be there. -/
def needsDirectory (fullpath : Path) : Prop := fullpath ≠ ['/'] ∧ fullpath ≠ ['/', 'd', 'e', 'v']

instance (fullpath : Path) : Decidable (needsDirectory fullpath) := inferInstanceAs (Decidable (_ ∧ _))

def setEntry (s : Mounts δ) (i : Nat) (fs : Filesystem δ) : Mounts δ :=
  { s with filesystemTable := s.filesystemTable.set i fs }

/-- `dfs_mount` from where the path has been normalised. -/
def register (s : Mounts δ) (devId : Option δ) (path fullpath : Path) (ops : Ops) (answers : Answers) :
    Mounts δ × Except (Option Errno) Unit :=
  match findEmpty path s.filesystemTable 0 none with
  | .error errno => (s, .error (some errno))
  | .ok i =>
    let s := s.setEntry i { path := some fullpath, ops := some ops, devId := devId }
    if (devId.isSome ∧ ¬ answers.deviceOpens) ∨ ¬ answers.mounts then (s.setEntry i .zero, .error none)
    else (s, .ok ())

/-- `dfs_mount`, with the device that has been found if one is named. -/
def mount (s : Mounts δ) (device : Option (Option δ)) (path filesystemtype : Path) (answers : Answers) :
    Mounts δ × Except (Option Errno) Unit :=
  if device.any Option.isNone then (s, .error (some .enodev))
  else
    match s.findOps filesystemtype with
    | none => (s, .error (some .enodev))
    | some ops =>
      if ¬ ops.mount then (s, .error (some .enosys))
      else
        match normalizePath s.workingDirectory answers.malloc path with
        | none => (s, .error (some .enotdir))
        | some fullpath =>
          if needsDirectory fullpath ∧ ¬ answers.opens then (s, .error (some .enotdir))
          else s.register device.join path fullpath ops answers

/-- `dfs_unmount`. -/
def unmount (s : Mounts δ) (specialfile : Path) (malloc unmounts : Bool) :
    Mounts δ × Except (Option Errno) Unit :=
  match normalizePath s.workingDirectory malloc specialfile with
  | none => (s, .error (some .enotdir))
  | some fullpath =>
    match s.filesystemTable.findIdx? fun iter => iter.path = some fullpath with
    | none => (s, .error none)
    | some i =>
      if ((s.filesystemTable[i]?.bind Filesystem.ops).any Ops.unmount) ∧ unmounts then
        (s.setEntry i .zero, .ok ())
      else (s, .error none)

/-- One entry in the loop of the lookup, with what has been found and the length of its path. -/
def visit (path : Path) (found : Option Nat × Nat) (entry : Filesystem δ × Nat) : Option Nat × Nat :=
  match entry.1.path, entry.1.ops with
  | some fspath, some _ =>
    if fspath.length < found.2 ∨ ¬ fspath <+: path then found
    else if 1 < fspath.length ∧ fspath.length < path.length ∧ path[fspath.length]? ≠ some '/' then found
    else (some entry.2, fspath.length)
  | _, _ => found

/-- `dfs_filesystem_lookup`. -/
def lookup (s : Mounts δ) (path : Path) : Option Nat :=
  (s.filesystemTable.zipIdx.foldl (visit path) (none, 0)).1

/-- What may happen. -/
inductive Act (δ : Type*)
  | mount (device : Option (Option δ)) (path filesystemtype : Path) (answers : Answers)
  | unmount (specialfile : Path) (malloc unmounts : Bool)

def exec (s : Mounts δ) : Act δ → Mounts δ
  | .mount device path filesystemtype answers => (s.mount device path filesystemtype answers).1
  | .unmount specialfile malloc unmounts => (s.unmount specialfile malloc unmounts).1

/-- Nothing is mounted. -/
def Initial (s : Mounts δ) : Prop := ∀ fs ∈ s.filesystemTable, fs = .zero

def pathAt (s : Mounts δ) (i : Nat) : Option Path := s.filesystemTable[i]?.bind Filesystem.path

/-- No two entries have the same path. -/
def Unique (s : Mounts δ) : Prop := ∀ i j p, s.pathAt i = some p → s.pathAt j = some p → i = j

def Mounted (s : Mounts δ) (p : Path) : Prop := ∃ fs ∈ s.filesystemTable, fs.path = some p

/-- A prefix of a path that consists of whole components; the root is one of every path. -/
def WholePrefix (p path : Path) : Prop := p = ['/'] ∨ path = p ∨ p ++ ['/'] <+: path

/-- The entry with the longest mount path that is a prefix of a path, if there is one. -/
def IsLookup (s : Mounts δ) (path : Path) : Option Nat → Prop
  | some i => ∃ p, s.pathAt i = some p ∧ WholePrefix p path ∧
      ∀ p', s.Mounted p' → WholePrefix p' path → p'.length ≤ p.length
  | none => ∀ p, s.Mounted p → ¬ WholePrefix p path

/-- Nothing but the table can make a mount fail. -/
def Willing (s : Mounts δ) (device : Option (Option δ)) (filesystemtype fullpath : Path)
    (answers : Answers) : Prop :=
  device.any Option.isNone = false ∧ (∃ ops, s.findOps filesystemtype = some ops ∧ ops.mount) ∧
    (needsDirectory fullpath → answers.opens) ∧ (device.join.isSome → answers.deviceOpens) ∧ answers.mounts

/-- Where a step may be trusted: where there is a file system on the normalised path already, and nothing
else would make the mount fail, the argument is spelled as the path of some entry. -/
def Careful (s : Mounts δ) : Act δ → Prop
  | .mount device path filesystemtype answers =>
    ∀ fullpath, normalizePath s.workingDirectory answers.malloc path = some fullpath →
      s.Mounted fullpath → s.Willing device filesystemtype fullpath answers →
        (∃ fs ∈ s.filesystemTable, fs.ops = none) → s.Mounted path
  | .unmount .. => True

/-- An entry has been cleared, or is in use. -/
def Clean (s : Mounts δ) : Prop :=
  ∀ fs ∈ s.filesystemTable, fs = .zero ∨ (fs.path ≠ none ∧ fs.ops ≠ none)

variable {s : Mounts δ} {path : Path} {i k : Nat} {es : List (Filesystem δ)}

theorem findEmpty_ok {found : Option Nat} (h : findEmpty path es i found = .ok k) :
    (∀ fs ∈ es, fs.ops ≠ none → fs.path ≠ some path) ∧
      (found = some k ∨ ∃ j fs, k = i + j ∧ es[j]? = some fs ∧ fs.ops = none) := by
  induction es generalizing i found with
  | nil =>
    refine ⟨fun fs hfs => absurd hfs not_mem_nil, .inl ?_⟩
    cases found with
    | none => cases h
    | some j => exact congrArg some (Except.ok.inj h)
  | cons iter rest ih =>
    unfold findEmpty at h
    split_ifs at h with hops hpath
    · obtain ⟨hother, hfound⟩ := ih h
      refine ⟨fun fs hfs hne => ?_, ?_⟩
      · rcases mem_cons.mp hfs with rfl | hfs
        · exact absurd hops hne
        · exact hother fs hfs hne
      · rcases hfound with hfound | ⟨j, fs, rfl, hj, hnone⟩
        · cases found with
          | none =>
            obtain rfl : i = k := some.inj hfound
            exact .inr ⟨0, iter, rfl, rfl, hops⟩
          | some j => exact .inl hfound
        · exact .inr ⟨j + 1, fs, by omega, hj, hnone⟩
    · obtain ⟨hother, hfound⟩ := ih h
      refine ⟨fun fs hfs hne => ?_, hfound.imp_right fun ⟨j, fs, heq, hj, hnone⟩ =>
        ⟨j + 1, fs, by omega, hj, hnone⟩⟩
      rcases mem_cons.mp hfs with rfl | hfs
      · exact hpath
      · exact hother fs hfs hne

theorem findEmpty_exists (path : Path) (i : Nat) (found : Option Nat)
    (hother : ∀ fs ∈ es, fs.ops ≠ none → fs.path ≠ some path)
    (hempty : found ≠ none ∨ ∃ fs ∈ es, fs.ops = none) : ∃ k, findEmpty path es i found = .ok k := by
  induction es generalizing i found with
  | nil =>
    cases found with
    | none => simp at hempty
    | some j => exact ⟨j, rfl⟩
  | cons iter rest ih =>
    have hrest : ∀ fs ∈ rest, fs.ops ≠ none → fs.path ≠ some path := fun fs hfs =>
      hother fs (.tail _ hfs)
    unfold findEmpty
    by_cases hops : iter.ops = none
    · rw [if_pos hops]
      exact ih _ _ hrest (.inl (by cases found <;> simp))
    · rw [if_neg hops, if_neg (hother iter (.head _) hops)]
      refine ih _ _ hrest (hempty.imp_right fun ⟨fs, hfs, hnone⟩ => ⟨fs, ?_, hnone⟩)
      rcases mem_cons.mp hfs with rfl | hfs
      · exact absurd hnone hops
      · exact hfs

variable {fs : Filesystem δ} {p : Path} {devId : Option δ}

theorem pathAt_setEntry (hi : i < s.filesystemTable.length) (j : Nat) :
    (s.setEntry i fs).pathAt j = if i = j then fs.path else s.pathAt j := by
  unfold pathAt setEntry
  rw [List.getElem?_set]
  split_ifs with heq
  · rfl
  · rfl

theorem mounted_iff : s.Mounted p ↔ ∃ i, s.pathAt i = some p := by
  unfold Mounted pathAt
  simp only [mem_iff_getElem?, bind_eq_some_iff]
  exact ⟨fun ⟨fs, ⟨i, hi⟩, hp⟩ => ⟨i, fs, hi, hp⟩, fun ⟨i, fs, hi, hp⟩ => ⟨fs, ⟨i, hi⟩, hp⟩⟩

theorem setEntry_zero (hi : s.filesystemTable[i]? = some .zero) :
    (s.setEntry i fs).setEntry i .zero = s := by
  unfold setEntry
  rw [set_set]
  congr
  obtain ⟨hlt, heq⟩ := List.getElem?_eq_some_iff.mp hi
  rw [← heq]
  exact set_getElem_self hlt

theorem Clean.ops (h : s.Clean) (hfs : fs ∈ s.filesystemTable) :
    fs.path ≠ none ↔ fs.ops ≠ none := by
  rcases h fs hfs with rfl | ⟨hpath, hops⟩
  · exact iff_of_false (fun hne => hne rfl) fun hne => hne rfl
  · exact ⟨fun _ => hops, fun _ => hpath⟩

theorem Clean.zero (h : s.Clean) (hfs : fs ∈ s.filesystemTable) (hops : fs.ops = none) :
    fs = .zero :=
  (h fs hfs).resolve_right fun hne => hne.2 hops

theorem register_cases {fullpath : Path} {ops : Ops} {answers : Answers} (h : s.Clean) :
    (∃ e, s.register devId path fullpath ops answers = (s, .error e)) ∨
      ∃ i, s.filesystemTable[i]? = some .zero ∧ ¬ s.Mounted path ∧
        (devId.isSome → answers.deviceOpens) ∧ answers.mounts ∧
        s.register devId path fullpath ops answers =
          (s.setEntry i { path := some fullpath, ops := some ops, devId := devId }, .ok ()) := by
  unfold register
  cases hfind : findEmpty path s.filesystemTable 0 none with
  | error errno => exact .inl ⟨_, rfl⟩
  | ok i =>
    obtain ⟨hother, hfound⟩ := findEmpty_ok hfind
    obtain ⟨j, fs, hj, hget, hops⟩ := hfound.resolve_left (some_ne_none i).symm
    rw [Nat.zero_add] at hj
    subst hj
    obtain rfl := h.zero (mem_of_getElem? hget) hops
    dsimp only
    split_ifs with hfail
    · rw [setEntry_zero hget]
      exact .inl ⟨_, rfl⟩
    · obtain ⟨hdevice, hmounts⟩ := not_or.mp hfail
      refine .inr ⟨i, hget, fun ⟨fs, hfs, hpath⟩ => ?_, fun hsome => ?_, not_not.mp hmounts, rfl⟩
      · exact hother fs hfs ((h.ops hfs).mp (by simp [hpath])) hpath
      · by_contra hopens
        exact hdevice ⟨hsome, hopens⟩

variable {device : Option (Option δ)} {filesystemtype fullpath : Path} {answers : Answers}

/-- A mount fails and leaves everything as it was, or it fills an entry that is empty. -/
theorem mount_cases (h : s.Clean) (device : Option (Option δ)) (path filesystemtype : Path)
    (answers : Answers) : (∃ e, s.mount device path filesystemtype answers = (s, .error e)) ∨
      ∃ fullpath ops i, normalizePath s.workingDirectory answers.malloc path = some fullpath ∧
        s.Willing device filesystemtype fullpath answers ∧ s.filesystemTable[i]? = some .zero ∧
        ¬ s.Mounted path ∧ s.mount device path filesystemtype answers =
          (s.setEntry i { path := some fullpath, ops := some ops, devId := device.join }, .ok ()) := by
  unfold mount
  by_cases hdevice : device.any Option.isNone
  · exact .inl ⟨_, if_pos hdevice⟩
  rw [if_neg hdevice]
  cases hops : s.findOps filesystemtype with
  | none => exact .inl ⟨_, rfl⟩
  | some ops =>
    by_cases hmount : ops.mount
    · cases hfull : normalizePath s.workingDirectory answers.malloc path with
      | none => exact .inl ⟨_, if_neg (not_not.mpr hmount)⟩
      | some fullpath =>
        dsimp only
        rw [if_neg (not_not.mpr hmount)]
        by_cases hdir : needsDirectory fullpath ∧ ¬ answers.opens
        · exact .inl ⟨_, if_pos hdir⟩
        · rw [if_neg hdir]
          refine (register_cases h).imp_right fun ⟨i, hi, hnot, hopen, hmounts, heq⟩ =>
            ⟨fullpath, ops, i, rfl, ?_, hi, hnot, heq⟩
          refine ⟨by simpa using hdevice, ⟨ops, hops, hmount⟩, fun hneeds => ?_, hopen, hmounts⟩
          by_contra hopens
          exact hdir ⟨hneeds, hopens⟩
    · exact .inl ⟨_, if_pos hmount⟩

theorem mount_ok (hfull : normalizePath s.workingDirectory answers.malloc path = some fullpath)
    (hwilling : s.Willing device filesystemtype fullpath answers)
    (hempty : ∃ fs ∈ s.filesystemTable, fs.ops = none) (hnot : ¬ s.Mounted path) :
    (s.mount device path filesystemtype answers).2 = .ok () := by
  obtain ⟨hdevice, ⟨ops, hops, hmount⟩, hopens, hdeviceOpens, hmounts⟩ := hwilling
  unfold mount
  rw [if_neg (by simp [hdevice])]
  simp only [hops]
  rw [if_neg (not_not.mpr hmount)]
  simp only [hfull]
  rw [if_neg fun hdir => hdir.2 (hopens hdir.1)]
  obtain ⟨i, hi⟩ := findEmpty_exists path 0 none
    (fun fs hfs _ hpath => hnot ⟨fs, hfs, hpath⟩) (.inr hempty)
  unfold register
  simp only [hi]
  rw [if_neg]
  rintro (⟨hsome, hclosed⟩ | hfails)
  · exact hclosed (hdeviceOpens hsome)
  · exact hfails hmounts

/-- An unmount fails and leaves everything as it was, or it clears an entry. -/
theorem unmount_cases (path : Path) (malloc unmounts : Bool) :
    (∃ e, s.unmount path malloc unmounts = (s, .error e)) ∨
      ∃ i, i < s.filesystemTable.length ∧
        s.unmount path malloc unmounts = (s.setEntry i .zero, .ok ()) := by
  unfold unmount
  cases normalizePath s.workingDirectory malloc path with
  | none => exact .inl ⟨_, rfl⟩
  | some fullpath =>
    dsimp only
    cases hfind : s.filesystemTable.findIdx? fun iter => iter.path = some fullpath with
    | none => exact .inl ⟨_, rfl⟩
    | some i =>
      dsimp only
      split_ifs with hunmounts
      · exact .inr ⟨i, (List.findIdx?_eq_some_iff_getElem.mp hfind).1, rfl⟩
      · exact .inl ⟨_, rfl⟩

theorem Clean.setEntry (h : s.Clean)
    (hfs : fs = .zero ∨ (fs.path ≠ none ∧ fs.ops ≠ none)) : (s.setEntry i fs).Clean := by
  intro fs' hfs'
  rcases mem_or_eq_of_mem_set hfs' with hin | rfl
  · exact h fs' hin
  · exact hfs

theorem Clean.exec {a : Act δ} (h : s.Clean) : (s.exec a).Clean := by
  cases a with
  | mount device path filesystemtype answers =>
    change (s.mount device path filesystemtype answers).1.Clean
    rcases mount_cases h device path filesystemtype answers with ⟨e, heq⟩ | ⟨fullpath, ops, i, -, -, -, -, heq⟩
    · rw [heq]
      exact h
    · rw [heq]
      exact h.setEntry (.inr ⟨some_ne_none _, some_ne_none _⟩)
  | unmount specialfile malloc unmounts =>
    change (s.unmount specialfile malloc unmounts).1.Clean
    rcases unmount_cases specialfile malloc unmounts with ⟨e, heq⟩ | ⟨i, -, heq⟩
    · rw [heq]
      exact h
    · rw [heq]
      exact h.setEntry (.inl rfl)

theorem Unique.clear (h : s.Unique) (hi : i < s.filesystemTable.length) : (s.setEntry i .zero).Unique := by
  intro j k p hj hk
  rw [pathAt_setEntry hi] at hj hk
  split_ifs at hj hk with heqj heqk heqk
  · cases hj
  · cases hj
  · cases hk
  · exact h j k p hj hk

/-- A new entry repeats no path just where its path was not mounted. -/
theorem Unique.fill_iff {ops : Option Ops} (h : s.Unique)
    (hi : s.filesystemTable[i]? = some .zero) :
    (s.setEntry i { path := some fullpath, ops := ops, devId := devId }).Unique ↔ ¬ s.Mounted fullpath := by
  have hlt := (List.getElem?_eq_some_iff.mp hi).1
  have hnone : s.pathAt i = none := by
    unfold pathAt
    rw [hi]
    rfl
  rw [mounted_iff]
  refine ⟨fun hunique ⟨j, hj⟩ => ?_, fun hnot j k p hj hk => ?_⟩
  · have hne : i ≠ j := by
      rintro rfl
      rw [hnone] at hj
      cases hj
    refine hne (hunique i j fullpath ?_ ?_)
    · rw [pathAt_setEntry hlt, if_pos rfl]
    · rw [pathAt_setEntry hlt, if_neg hne, hj]
  · rw [pathAt_setEntry hlt] at hj hk
    split_ifs at hj hk with heqj heqk heqk
    · exact heqj.symm.trans heqk
    · exact absurd ⟨k, hk.trans hj.symm⟩ hnot
    · exact absurd ⟨j, hj.trans hk.symm⟩ hnot
    · exact h j k p hj hk

/-- A step repeats no path just where it meets the condition. -/
theorem Unique.exec_iff {a : Act δ} (h : s.Unique) (hclean : s.Clean) :
    (s.exec a).Unique ↔ s.Careful a := by
  cases a with
  | mount device path filesystemtype answers =>
    change (s.mount device path filesystemtype answers).1.Unique ↔ _
    rcases mount_cases hclean device path filesystemtype answers with ⟨e, heq⟩ | ⟨fullpath, ops, i, hfull, hwilling, hi, hnot, heq⟩
    · rw [heq]
      refine ⟨fun _ fullpath hfull hmounted hwilling hempty => ?_, fun _ => h⟩
      by_contra hnot
      have hok := mount_ok hfull hwilling hempty hnot
      rw [heq] at hok
      cases hok
    · rw [heq, h.fill_iff hi]
      refine ⟨fun hnew fullpath' hfull' hmounted => ?_, fun hcareful hmounted => ?_⟩
      · rw [hfull] at hfull'
        exact absurd (some.inj hfull' ▸ hmounted) hnew
      · exact hnot (hcareful fullpath hfull hmounted hwilling ⟨_, mem_of_getElem? hi, rfl⟩)
  | unmount specialfile malloc unmounts =>
    change (s.unmount specialfile malloc unmounts).1.Unique ↔ True
    rw [iff_true]
    rcases unmount_cases specialfile malloc unmounts with ⟨e, heq⟩ | ⟨i, hi, heq⟩
    · rw [heq]
      exact h
    · rw [heq]
      exact h.clear hi

/-- What the loop has found among the entries it has visited. -/
def Best (es : List (Filesystem δ)) (path : Path) (found : Option Nat × Nat) : Prop :=
  match found.1 with
  | some i => ∃ p, es[i]?.bind Filesystem.path = some p ∧ WholePrefix p path ∧ found.2 = p.length ∧
      ∀ fs ∈ es, ∀ p', fs.path = some p' → WholePrefix p' path → p'.length ≤ found.2
  | none => found.2 = 0 ∧ ∀ fs ∈ es, ∀ p, fs.path = some p → ¬ WholePrefix p path

/-- The test of the loop, on a path that begins with a slash. -/
theorem wholePrefix_iff (hpath : path.head? = some '/') : WholePrefix p path ↔
      p <+: path ∧ ¬ (1 < p.length ∧ p.length < path.length ∧ path[p.length]? ≠ some '/') := by
  constructor
  · rintro (rfl | rfl | ⟨t, rfl⟩)
    · obtain ⟨t, rfl⟩ := List.head?_eq_some_iff.mp hpath
      exact ⟨⟨t, rfl⟩, fun hlt => absurd hlt.1 (Nat.lt_irrefl 1)⟩
    · exact ⟨prefix_rfl, fun hlt => absurd hlt.2.1 (Nat.lt_irrefl _)⟩
    · rw [append_assoc]
      refine ⟨prefix_append .., fun hne => hne.2.2 ?_⟩
      rw [List.getElem?_append_right (Nat.le_refl _), Nat.sub_self]
      rfl
  · rintro ⟨⟨t, rfl⟩, htest⟩
    cases t with
    | nil => exact .inr (.inl (append_nil p))
    | cons c t =>
      have hslash : 1 < p.length → c = '/' := by
        intro hlen
        by_contra hne
        refine htest ⟨hlen, by simp, ?_⟩
        rw [List.getElem?_append_right (Nat.le_refl _), Nat.sub_self]
        exact fun heq => hne (some.inj heq)
      match p, hpath, hslash with
      | [], hpath, _ =>
        obtain rfl : c = '/' := some.inj hpath
        exact .inr (.inr ⟨t, rfl⟩)
      | [x], hpath, _ =>
        obtain rfl : x = '/' := some.inj hpath
        exact .inl rfl
      | x :: y :: p, _, hslash =>
        obtain rfl : c = '/' := hslash (by simp)
        exact .inr (.inr ⟨t, by simp⟩)

variable {found : Option Nat × Nat}

/-- What has been found stays, where the next entry is not better. -/
theorem Best.keep (h : Best es path found)
    (hfs : ∀ p, fs.path = some p → WholePrefix p path → found.1 ≠ none ∧ p.length ≤ found.2) :
    Best (es ++ [fs]) path found := by
  obtain ⟨o, len⟩ := found
  cases o with
  | none =>
    refine ⟨h.1, fun fs' hfs' p hp hwhole => ?_⟩
    rcases mem_append.mp hfs' with hin | hin
    · exact h.2 fs' hin p hp hwhole
    · obtain rfl := mem_singleton.mp hin
      exact (hfs p hp hwhole).1 rfl
  | some i =>
    obtain ⟨p, hp, hwhole, hlen, hbest⟩ := h
    obtain ⟨fs', hget, hpath'⟩ := bind_eq_some_iff.mp hp
    refine ⟨p, bind_eq_some_iff.mpr ⟨fs', ?_, hpath'⟩, hwhole, hlen, fun fs'' hfs'' p' hp' hwhole' => ?_⟩
    · rw [List.getElem?_append_left (List.getElem?_eq_some_iff.mp hget).1]
      exact hget
    · rcases mem_append.mp hfs'' with hin | hin
      · exact hbest fs'' hin p' hp' hwhole'
      · obtain rfl := mem_singleton.mp hin
        exact (hfs p' hp' hwhole').2

theorem Best.replace
    (h : Best es path found) (hp : fs.path = some p) (hwhole : WholePrefix p path)
    (hlen : found.2 ≤ p.length) : Best (es ++ [fs]) path (some es.length, p.length) := by
  refine ⟨p, ?_, hwhole, rfl, fun fs' hfs' p' hp' hwhole' => ?_⟩
  · rw [List.getElem?_append_right (Nat.le_refl _), Nat.sub_self]
    exact hp
  · rcases mem_append.mp hfs' with hin | hin
    · obtain ⟨o, len⟩ := found
      cases o with
      | none => exact absurd hwhole' (h.2 fs' hin p' hp')
      | some i =>
        obtain ⟨-, -, -, -, hbest⟩ := h
        exact (hbest fs' hin p' hp' hwhole').trans hlen
    · obtain rfl := mem_singleton.mp hin
      rw [hp] at hp'
      exact Nat.le_of_eq (congrArg List.length (some.inj hp').symm)

theorem Best.visit
    (hpath : path.head? = some '/') (hclean : fs.path ≠ none ↔ fs.ops ≠ none) (h : Best es path found) :
    Best (es ++ [fs]) path (visit path found (fs, es.length)) := by
  unfold Mounts.visit
  cases hp : fs.path with
  | none => exact h.keep fun p hp' => absurd (hp.symm.trans hp') (some_ne_none p).symm
  | some p =>
    obtain ⟨ops, hops⟩ := ne_none_iff_exists'.mp (hclean.mp (by simp [hp]))
    simp only [hops]
    have hself : ∀ p', fs.path = some p' → p' = p := fun p' hp' => some.inj (hp'.symm.trans hp)
    split_ifs with hskip htest
    · refine h.keep fun p' hp' hwhole => ?_
      obtain rfl := hself p' hp'
      have hlt := hskip.resolve_right (not_not.mpr ((wholePrefix_iff hpath).mp hwhole).1)
      refine ⟨fun hnone => ?_, Nat.le_of_lt hlt⟩
      unfold Best at h
      rw [hnone] at h
      omega
    · refine h.keep fun p' hp' hwhole => ?_
      obtain rfl := hself p' hp'
      exact absurd htest ((wholePrefix_iff hpath).mp hwhole).2
    · obtain ⟨hle, hwhole⟩ := not_or.mp hskip
      exact h.replace hp ((wholePrefix_iff hpath).mpr ⟨not_not.mp hwhole, htest⟩) (Nat.le_of_not_lt hle)

theorem best_foldl (hpath : path.head? = some '/')
    (hclean : ∀ fs ∈ es, fs.path ≠ none ↔ fs.ops ≠ none) :
    Best es path (es.zipIdx.foldl (visit path) (none, 0)) := by
  induction es using List.reverseRecOn with
  | nil => exact ⟨rfl, fun fs hfs => absurd hfs not_mem_nil⟩
  | append_singleton es fs ih =>
    rw [zipIdx_append, foldl_append, Nat.zero_add]
    exact Best.visit hpath (hclean fs (by simp)) (ih fun fs' hfs' => hclean fs' (by simp [hfs']))

/-- A lookup finds the entry with the longest mount path that is a prefix. -/
theorem Clean.isLookup (h : s.Clean) (hpath : path.head? = some '/') : s.IsLookup path (s.lookup path) := by
  have hbest := best_foldl hpath fun fs hfs => h.ops hfs
  unfold lookup
  generalize s.filesystemTable.zipIdx.foldl (Mounts.visit path) (none, 0) = found at hbest
  obtain ⟨o, len⟩ := found
  cases o with
  | none => exact fun p ⟨fs, hfs, hp⟩ => hbest.2 fs hfs p hp
  | some i =>
    obtain ⟨p, hp, hwhole, hlen, hlongest⟩ := hbest
    exact ⟨p, hp, hwhole, fun p' ⟨fs, hfs, hp'⟩ hwhole' => hlen ▸ hlongest fs hfs p' hp' hwhole'⟩

theorem Initial.clean (h : Initial s) : s.Clean := fun fs hfs => .inl (h fs hfs)

theorem Initial.unique (h : Initial s) : s.Unique := by
  intro i j p hi
  obtain ⟨fs, hfs, hp⟩ := mounted_iff.mpr ⟨i, hi⟩
  rw [h fs hfs] at hp
  cases hp

/-- While no mount spells a path that is mounted otherwise than an entry does, no path is mounted twice,
a call that fails leaves everything as it was, and lookups of paths that begin with a slash find the
longest mount path; and a step repeats no path just where it meets the condition. -/
theorem reachable_mountsKept (s : Mounts δ)
    (h : Reachable Initial (Within (fun s a s' => s.exec a = s') Careful) s) :
    s.Unique ∧
      (∀ device path filesystemtype answers e, (s.mount device path filesystemtype answers).2 = .error e →
        (s.mount device path filesystemtype answers).1 = s) ∧
      (∀ path, path.head? = some '/' → s.IsLookup path (s.lookup path)) ∧
      ∀ a, (s.exec a).Unique ↔ s.Careful a := by
  have hkept : s.Clean ∧ s.Unique := by
    refine h.invariant (I := fun s => s.Clean ∧ s.Unique) (fun s h₀ => ⟨h₀.clean, h₀.unique⟩)
      fun s a s' _ ih hstep => ?_
    obtain ⟨hcareful, rfl⟩ := hstep
    exact ⟨ih.1.exec, (ih.2.exec_iff ih.1).mpr hcareful⟩
  refine ⟨hkept.2, fun device path filesystemtype answers e he => ?_, fun path => hkept.1.isLookup,
    fun a => hkept.2.exec_iff hkept.1⟩
  rcases mount_cases hkept.1 device path filesystemtype answers with ⟨e, heq⟩ | ⟨fullpath, ops, i, -, -, -, -, heq⟩
  · rw [heq]
  · rw [heq] at he
    cases he

/-- A table of three entries, and one file system. -/
def mounts3 : Mounts Unit where
  filesystemTable := [.zero, .zero, .zero]
  filesystemOperationTable := [some { name := "ram".toList, mount := true, unmount := true }]
  workingDirectory := none

/-- A mount without a device to which everything answers. -/
def mountRam (path : Path) : Act Unit :=
  .mount none path "ram".toList { malloc := true, opens := true, deviceOpens := true, mounts := true }

theorem mounts3_initial : Initial mounts3 := by
  unfold Initial
  decide

theorem careful_of_not_mounted {s : Mounts Unit} {path : Path} (fullpath : Path)
    (hfull : normalizePath s.workingDirectory true path = some fullpath) (h : ¬ s.Mounted fullpath) :
    s.Careful (mountRam path) := by
  intro fullpath' hfull' hmounted
  exact absurd (some.inj (hfull.symm.trans hfull') ▸ hmounted) h

/-- With the root and another file system mounted, a path below the latter is found there. -/
theorem reachable_mountsKept_below : ∃ s : Mounts Unit, s.lookup "/mnt/a".toList = some 1 ∧
    s.IsLookup "/mnt/a".toList (s.lookup "/mnt/a".toList) := by
  have hstart : Reachable Initial (Within (fun s a s' => exec s a = s') Careful) mounts3 :=
    Reachable.start mounts3_initial
  have hroot : mounts3.Careful (mountRam "/".toList) :=
    careful_of_not_mounted "/".toList (by decide +kernel) (by unfold Mounted; decide +kernel)
  have hmnt : (mounts3.exec (mountRam "/".toList)).Careful (mountRam "/mnt/".toList) :=
    careful_of_not_mounted "/mnt".toList (by decide +kernel)
      (by unfold Mounted; decide +kernel)
  have hrun := (hstart.next ⟨hroot, rfl⟩).next ⟨hmnt, rfl⟩
  exact ⟨_, by decide +kernel, (reachable_mountsKept _ hrun).2.2.1 "/mnt/a".toList (by decide)⟩

/-- A path that is mounted is mounted once more with a slash at its end; and a normalised path without a
slash at its beginning is not found below the root. -/
theorem mounted_twice : (∃ s : Mounts Unit, Reachable Initial (fun s a s' => exec s a = s') s ∧ ¬ s.Unique) ∧
    ∃ s : Mounts Unit, Reachable Initial (fun s a s' => exec s a = s') s ∧
      normalizePath none true "/../a".toList = some "a".toList ∧
      ¬ s.IsLookup "a".toList (s.lookup "a".toList) := by
  have hstart : Reachable Initial (fun s a s' => exec s a = s') mounts3 := Reachable.start mounts3_initial
  have hroot := hstart.next (a := mountRam "/".toList) rfl
  have hmnt := (hstart.next (a := mountRam "/mnt".toList) rfl).next (a := mountRam "/mnt/".toList) rfl
  refine ⟨⟨_, hmnt, fun hunique => ?_⟩, _, hroot, by decide +kernel, fun hlookup => ?_⟩
  · have hsame : 0 = 1 := hunique 0 1 "/mnt".toList (by decide +kernel) (by decide +kernel)
    cases hsame
  · have hnone : (mounts3.exec (mountRam "/".toList)).lookup "a".toList = none := by decide +kernel
    rw [hnone] at hlookup
    exact hlookup "/".toList (by unfold Mounted; decide +kernel) (.inl rfl)

end Mounts

end RtKernel.Dfs
