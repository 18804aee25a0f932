import Mathlib.Data.Fintype.Basic
import RtKernel.Dfs.Mount

/-!
# The RAM file system

A file is an entry in the list of the root directory, with a block of the memory heap for its
contents. Every descriptor keeps the size of the file of its own, as it was when it was opened
or when it last made the file longer.

There is no result where bytes outside of a block would be read or written.
-/

open List Option

namespace RtKernel.Dfs

open Function

section

variable {α : Type*}

/-- Bytes are put in from a position on. -/
def splice (l : List α) (i : Nat) (b : List α) : List α := l.take i ++ b ++ l.drop (i + b.length)

@[simp] theorem splice_nil (l : List α) (i : Nat) : splice l i [] = l := by
  simp [splice, take_append_drop]

theorem length_splice {l b : List α} {i : Nat} (hi : i ≤ l.length) :
    (splice l i b).length = max l.length (i + b.length) := by
  unfold splice
  simp only [length_append, length_take, length_drop]
  omega

end

/-- What `rt_memheap_realloc` makes of a block, with the bytes that come to it. -/
def resize (data fill : List UInt8) (newsize : Nat) : List UInt8 :=
  (data ++ fill ++ List.replicate newsize 0).take newsize

/-- Where a longer block is filled up to its end, what it was filled with is gone. -/
theorem splice_resize {data fill bytes : List UInt8} {pos : Nat} (hpos : pos ≤ data.length)
    (hlen : data.length ≤ pos + bytes.length) :
    splice (resize data fill (pos + bytes.length)) pos bytes = splice data pos bytes := by
  have htake : (resize data fill (pos + bytes.length)).take pos = data.take pos := by
    unfold resize
    rw [take_take, Nat.min_eq_left (Nat.le_add_right ..), append_assoc,
      take_append_of_le_length hpos]
  have hdrop : (resize data fill (pos + bytes.length)).drop (pos + bytes.length) = [] := by
    unfold resize
    exact drop_eq_nil_of_le (by rw [length_take]; exact Nat.min_le_left ..)
  unfold splice
  rw [htake, hdrop, drop_eq_nil_of_le hlen]

theorem length_resize (data fill : List UInt8) (n : Nat) : (resize data fill n).length = n := by
  unfold resize
  simp only [length_take, length_append, length_replicate]
  omega

/-- `RAMFS_NAME_MAX`. -/
def ramfsNameMax : Nat := 32

/-- A name of a file. -/
structure Name where
  text : Path
  ne_nil : text ≠ []
  no_slash : '/' ∉ text
  short : text.length < ramfsNameMax

/-- The path of a file below the mount point. -/
def Name.path (n : Name) : Path := '/' :: n.text

/-- `struct ramfs_dirent`. -/
structure RamfsDirent where
  name : Path
  data : List UInt8
  size : Nat

/-- `struct dfs_fd`, as far as the file system uses it. -/
structure RamfsFd where
  dirent : Nat
  size : Nat
  pos : Nat

/-- `O_CREAT`, `O_TRUNC`, `O_APPEND` and `O_WRONLY`. -/
structure Flags where
  creat : Bool
  trunc : Bool
  append : Bool
  wronly : Bool

namespace Ramfs

inductive Errno
  | enoent
  | enomem
  | eexist
  | eio
  deriving DecidableEq

/-- What a call returns. -/
inductive Out
  | done
  | read (bytes : List UInt8)
  | wrote (count : Nat)
  /-- Nothing is written, and `ENOMEM` is set. -/
  | short
  | pos (pos : Nat)
  | error (errno : Errno)
  deriving DecidableEq

/-- The calls, with how the memory heap answers: there is room for an entry, or with which bytes a
block is made longer. -/
inductive Act (ι : Type*)
  | open (i : ι) (n : Name) (flags : Flags) (memory : Bool)
  | read (i : ι) (count : Nat)
  | write (i : ι) (bytes : List UInt8) (realloc : Option (List UInt8))
  | lseek (i : ι) (offset : Nat)
  | close (i : ι)
  | unlink (n : Name)
  | rename (old new : Name)

end Ramfs

open Ramfs

/-- `struct dfs_ramfs` with its entries, and the descriptors. -/
structure Ramfs (ι : Type*) where
  dirent : Nat → RamfsDirent
  /-- The list of the root directory. -/
  list : List Nat
  /-- How many entries have been allocated. -/
  allocated : Nat
  fd : ι → Option RamfsFd

namespace Ramfs

variable {ι : Type*} [DecidableEq ι]

def find (s : Ramfs ι) (name : Path) : Option Nat := s.list.find? fun d => (s.dirent d).name = name

/-- `dfs_ramfs_lookup`; the root directory is an entry too. -/
def lookup (s : Ramfs ι) (path : Path) : Option (Option Nat) :=
  let subpath := skipSlashes path
  if subpath = [] then some none else (s.find subpath).map some

def setDirent (s : Ramfs ι) (d : Nat) (x : RamfsDirent) : Ramfs ι :=
  { s with dirent := update s.dirent d x }

def setFd (s : Ramfs ι) (i : ι) (x : Option RamfsFd) : Ramfs ι := { s with fd := update s.fd i x }

/-- A file entry is created. -/
def create (s : Ramfs ι) (path : Path) : Ramfs ι :=
  setDirent { s with list := s.allocated :: s.list, allocated := s.allocated + 1 } s.allocated
    { name := (skipSlashes path).take ramfsNameMax, data := [], size := 0 }

/-- The descriptor of a file that is opened. -/
def newFd (s : Ramfs ι) (d : Nat) (flags : Flags) : RamfsFd :=
  { dirent := d, size := (s.dirent d).size, pos := if flags.append then (s.dirent d).size else 0 }

/-- `dfs_ramfs_open` from where the entry has been found or created. -/
def attach (s : Ramfs ι) (i : ι) (d : Nat) (flags : Flags) : Ramfs ι :=
  let s := if flags.trunc then s.setDirent d { s.dirent d with data := [], size := 0 } else s
  s.setFd i (some (s.newFd d flags))

/-- `dfs_ramfs_open`, not of a directory. -/
def «open» (s : Ramfs ι) (i : ι) (path : Path) (flags : Flags) (memory : Bool) : Ramfs ι × Out :=
  match s.lookup path with
  | some none => (s, .error .enoent)
  | some (some d) => (s.attach i d flags, .done)
  | none =>
    if flags.creat ∨ flags.wronly then
      if memory then ((s.create path).attach i s.allocated flags, .done) else (s, .error .enomem)
    else (s, .error .enoent)

/-- `dfs_ramfs_read`. -/
def read (s : Ramfs ι) (i : ι) (file : RamfsFd) (count : Nat) : Option (Ramfs ι × Out) :=
  let data := (s.dirent file.dirent).data
  let length := if count < file.size - file.pos then count else file.size - file.pos
  if length = 0 ∨ file.pos + length ≤ data.length then
    some (s.setFd i (some { file with pos := file.pos + length }), .read ((data.drop file.pos).take length))
  else none

/-- `dfs_ramfs_write` from where there is room. -/
def store (s : Ramfs ι) (i : ι) (fd : RamfsFd) (bytes : List UInt8) : Option (Ramfs ι × Out) :=
  let dirent := s.dirent fd.dirent
  if bytes = [] ∨ fd.pos + bytes.length ≤ dirent.data.length then
    some ((s.setDirent fd.dirent { dirent with data := splice dirent.data fd.pos bytes }).setFd i
      (some { fd with pos := fd.pos + bytes.length }), .wrote bytes.length)
  else none

/-- `dfs_ramfs_write`. -/
def write (s : Ramfs ι) (i : ι) (fd : RamfsFd) (bytes : List UInt8) (realloc : Option (List UInt8)) :
    Option (Ramfs ι × Out) :=
  let newsize := fd.pos + bytes.length
  if fd.size < newsize then
    match realloc with
    | none => some (s, .short)
    | some fill =>
      let dirent := s.dirent fd.dirent
      store (s.setDirent fd.dirent { dirent with data := resize dirent.data fill newsize, size := newsize }) i
        { fd with size := newsize } bytes
  else s.store i fd bytes

/-- `dfs_ramfs_lseek`. -/
def lseek (s : Ramfs ι) (i : ι) (file : RamfsFd) (offset : Nat) : Ramfs ι × Out :=
  if offset ≤ file.size then (s.setFd i (some { file with pos := offset }), .pos offset)
  else (s, .error .eio)

/-- `dfs_ramfs_unlink` of a file that is not open. -/
def unlink [Fintype ι] (s : Ramfs ι) (path : Path) : Option (Ramfs ι × Out) :=
  match s.lookup path with
  | some (some d) =>
    if ∃ i, (s.fd i).any fun fd => fd.dirent = d then none
    else some ({ s with list := s.list.erase d }, .done)
  | some none => none
  | none => some (s, .error .enoent)

/-- `dfs_ramfs_rename`. -/
def rename (s : Ramfs ι) (oldpath newpath : Path) : Ramfs ι × Out :=
  match s.lookup newpath with
  | some _ => (s, .error .eexist)
  | none =>
    match s.lookup oldpath with
    | some (some d) => (s.setDirent d { s.dirent d with name := newpath.take ramfsNameMax }, .done)
    -- the name of the root directory is of no use
    | some none => (s, .done)
    | none => (s, .error .enoent)

/-- A descriptor is opened where it is not in use, and the other calls need one that is. -/
def exec [Fintype ι] (s : Ramfs ι) : Act ι → Option (Ramfs ι × Out)
  | .open i n flags memory => if (s.fd i).isNone then some (s.open i n.path flags memory) else none
  | .read i count => (s.fd i).bind fun file => s.read i file count
  | .write i bytes realloc => (s.fd i).bind fun fd => s.write i fd bytes realloc
  | .lseek i offset => (s.fd i).map fun file => s.lseek i file offset
  | .close i => (s.fd i).map fun _ => (s.setFd i none, .done)
  | .unlink n => s.unlink n.path
  | .rename old new => some (s.rename old.path new.path)

/-- The state after a call. -/
def next [Fintype ι] (s : Ramfs ι) (a : Act ι) : Option (Ramfs ι) := (s.exec a).map Prod.fst

/-- No file, and no descriptor in use. -/
def Initial (s : Ramfs ι) : Prop := s.list = [] ∧ ∀ i, s.fd i = none

end Ramfs

/-- Contents by their names, and for every descriptor its file and position. -/
structure Files (ι : Type*) where
  content : Path → Option (List UInt8)
  opened : ι → Option (Path × Nat)

namespace Files

variable {ι : Type*} [DecidableEq ι]

def empty : Files ι := { content := fun _ => none, opened := fun _ => none }

/-- A file is opened. -/
def openFile (f : Files ι) (i : ι) (name : Path) (c : List UInt8) (flags : Flags) : Files ι :=
  let c := if flags.trunc then [] else c
  { content := update f.content name (some c)
    opened := update f.opened i (some (name, if flags.append then c.length else 0)) }

def setPos (f : Files ι) (i : ι) (name : Path) (pos : Nat) : Files ι :=
  { f with opened := update f.opened i (some (name, pos)) }

/-- The file of a descriptor, with its contents and the position. -/
def file (f : Files ι) (i : ι) : Option (Path × List UInt8 × Nat) :=
  (f.opened i).bind fun x => (f.content x.1).map fun c => (x.1, c, x.2)

/-- What the calls are to do, where a write has the memory it needs. -/
def run [Fintype ι] (f : Files ι) : Act ι → Option (Files ι × Out)
  | .open i n flags memory =>
    if (f.opened i).isNone then
      match f.content n.text with
      | some c => some (f.openFile i n.text c flags, .done)
      | none =>
        if flags.creat ∨ flags.wronly then
          if memory then some (f.openFile i n.text [] flags, .done) else some (f, .error .enomem)
        else some (f, .error .enoent)
    else none
  | .read i count =>
    (f.file i).map fun (name, c, pos) =>
      let bytes := (c.drop pos).take count
      (f.setPos i name (pos + bytes.length), .read bytes)
  | .write i bytes _ =>
    (f.file i).map fun (name, c, pos) =>
      (setPos { f with content := update f.content name (some (splice c pos bytes)) } i name
        (pos + bytes.length), .wrote bytes.length)
  | .lseek i offset =>
    (f.file i).map fun (name, c, _) =>
      if offset ≤ c.length then (f.setPos i name offset, .pos offset) else (f, .error .eio)
  | .close i => (f.opened i).map fun _ => ({ f with opened := update f.opened i none }, .done)
  | .unlink n =>
    match f.content n.text with
    | some _ =>
      if ∃ i, (f.opened i).any fun x => x.1 = n.text then none
      else some ({ f with content := update f.content n.text none }, .done)
    | none => some (f, .error .enoent)
  | .rename old new =>
    match f.content new.text, f.content old.text with
    | some _, _ => some (f, .error .eexist)
    | none, none => some (f, .error .enoent)
    | none, some c =>
      some ({ content := update (update f.content old.text none) new.text (some c)
              opened := fun i => (f.opened i).map fun x => (if x.1 = old.text then new.text else x.1, x.2) },
        .done)

/-- What the calls are allowed to do: a write that gets no memory changes nothing. -/
def Allows [Fintype ι] (f : Files ι) (a : Act ι) (out : Out) (f' : Files ι) : Prop :=
  f.run a = some (f', out) ∨ ∃ i bytes, a = .write i bytes none ∧ f' = f ∧ out = .short

end Files

namespace Ramfs

variable {ι : Type*} [DecidableEq ι]

omit [DecidableEq ι] in
/-- The files of the file system. -/
def files (s : Ramfs ι) : Files ι where
  content name := (s.find name).map fun d => (s.dirent d).data
  opened i := (s.fd i).map fun fd => ((s.dirent fd.dirent).name, fd.pos)

/-- Where a step may be trusted. The size that a descriptor keeps leads a read, a write or a seek to what
the length of the file would lead it to, and no file gets another name. -/
def Careful (s : Ramfs ι) : Act ι → Prop
  | .read i count => ∀ file, s.fd i = some file →
    min count (file.size - file.pos) = min count ((s.dirent file.dirent).data.length - file.pos)
  | .write i bytes realloc => ∀ fd, s.fd i = some fd →
    let newsize := fd.pos + bytes.length
    let length := (s.dirent fd.dirent).data.length
    bytes = [] ∨ (newsize ≤ fd.size ∧ newsize ≤ length) ∨
      (fd.size < newsize ∧ (realloc = none ∨ (length ≤ newsize ∧ fd.pos ≤ length)))
  | .lseek i offset => ∀ file, s.fd i = some file →
    (offset ≤ file.size ↔ offset ≤ (s.dirent file.dirent).data.length)
  | .rename old new => s.find new.text ≠ none ∨ s.find old.text = none
  | .open .. | .close _ | .unlink _ => True

/-- What holds while every step meets the condition. -/
structure Sound (s : Ramfs ι) : Prop where
  nodup : s.list.Nodup
  below : ∀ d ∈ s.list, d < s.allocated
  name : ∀ d ∈ s.list, ∃ n : Name, (s.dirent d).name = n.text
  inj : ∀ d ∈ s.list, ∀ e ∈ s.list, (s.dirent d).name = (s.dirent e).name → d = e
  size : ∀ d ∈ s.list, (s.dirent d).size = (s.dirent d).data.length
  fd : ∀ i x, s.fd i = some x → x.dirent ∈ s.list ∧ x.pos ≤ x.size

variable {s s' : Ramfs ι} {i : ι} {d : Nat} {name : Path}

omit [DecidableEq ι] in
theorem Sound.find_iff (h : Sound s) :
    s.find name = some d ↔ d ∈ s.list ∧ (s.dirent d).name = name := by
  unfold find
  constructor
  · intro hfind
    have hname := List.find?_some hfind
    exact ⟨mem_of_find?_eq_some hfind, of_decide_eq_true hname⟩
  · rintro ⟨hd, rfl⟩
    cases hfind : s.list.find? fun e => (s.dirent e).name = (s.dirent d).name with
    | none =>
      have hne := List.find?_eq_none.mp hfind d hd
      simp at hne
    | some e =>
      have hname := List.find?_some hfind
      rw [h.inj e (mem_of_find?_eq_some hfind) d hd (of_decide_eq_true hname)]

omit [DecidableEq ι] in
theorem find_eq_none : s.find name = none ↔ ∀ d ∈ s.list, (s.dirent d).name ≠ name := by
  unfold find
  simp

theorem skipSlashes_path (n : Name) : skipSlashes n.path = n.text := by
  have hslash := n.no_slash
  unfold skipSlashes Name.path
  rw [dropWhile_cons_of_pos (by simp)]
  cases htext : n.text with
  | nil => rfl
  | cons c rest =>
    rw [htext] at hslash
    have hne : c ≠ '/' := fun heq => hslash (heq ▸ mem_cons_self)
    exact dropWhile_cons_of_neg (by simpa using hne)

section

omit [DecidableEq ι]

theorem lookup_path (n : Name) : s.lookup n.path = (s.find n.text).map some := by
  unfold lookup
  rw [skipSlashes_path, if_neg n.ne_nil]

theorem Sound.content (h : Sound s) (hd : d ∈ s.list) :
    s.files.content (s.dirent d).name = some (s.dirent d).data := by
  unfold files
  simp only
  rw [h.find_iff.mpr ⟨hd, rfl⟩]
  rfl

variable {x : RamfsFd}

theorem Sound.file (h : Sound s) (hx : s.fd i = some x) :
    s.files.file i = some ((s.dirent x.dirent).name, (s.dirent x.dirent).data, x.pos) := by
  have hopened : s.files.opened i = some ((s.dirent x.dirent).name, x.pos) := by
    unfold files
    simp only
    rw [hx]
    rfl
  unfold Files.file
  rw [hopened, bind_some, h.content (h.fd i x hx).1]
  rfl

theorem Sound.setDirent (h : Sound s) {x : RamfsDirent} (hd : d ∈ s.list)
    (hname : x.name = (s.dirent d).name) (hsize : x.size = x.data.length) :
    Sound (s.setDirent d x) ∧ (s.setDirent d x).files =
      { s.files with content := update s.files.content x.name (some x.data) } := by
  have hother : ∀ e ≠ d, (s.setDirent d x).dirent e = s.dirent e := fun e he => update_of_ne he ..
  have hself : (s.setDirent d x).dirent d = x := update_self ..
  have hnames : ∀ e, ((s.setDirent d x).dirent e).name = (s.dirent e).name := by
    intro e
    by_cases he : e = d
    · rw [he, hself, hname]
    · rw [hother e he]
  have hfind : ∀ name, (s.setDirent d x).find name = s.find name := fun name => by
    unfold find
    simp only [hnames]
    rfl
  refine ⟨⟨h.nodup, h.below, fun e he => ?_, fun e he e' he' heq => ?_, fun e he => ?_, h.fd⟩, ?_⟩
  · rw [hnames]
    exact h.name e he
  · rw [hnames, hnames] at heq
    exact h.inj e he e' he' heq
  · by_cases hed : e = d
    · rw [hed, hself, hsize]
    · rw [hother e hed]
      exact h.size e he
  · unfold files
    congr
    · funext name
      simp only [hfind]
      by_cases heq : name = x.name
      · subst heq
        rw [update_self, hname, h.find_iff.mpr ⟨hd, rfl⟩, map_some, hself]
      · rw [update_of_ne heq]
        cases he : s.find name with
        | none => rfl
        | some e =>
          have hne : e ≠ d := by
            rintro rfl
            exact heq ((h.find_iff.mp he).2.symm.trans hname.symm)
          rw [map_some, map_some, hother e hne]
    · funext j
      simp only [hnames]
      rfl

end

theorem Sound.setFd (h : Sound s) {o : Option RamfsFd}
    (ho : ∀ x, o = some x → x.dirent ∈ s.list ∧ x.pos ≤ x.size) :
    Sound (s.setFd i o) ∧ (s.setFd i o).files = { s.files with
      opened := update s.files.opened i (o.map fun x => ((s.dirent x.dirent).name, x.pos)) } := by
  have hself : (s.setFd i o).fd i = o := update_self ..
  have hother : ∀ j ≠ i, (s.setFd i o).fd j = s.fd j := fun j hj => update_of_ne hj ..
  refine ⟨⟨h.nodup, h.below, h.name, h.inj, h.size, fun j x hx => ?_⟩, ?_⟩
  · by_cases hj : j = i
    · rw [hj, hself] at hx
      exact ho x hx
    · rw [hother j hj] at hx
      exact h.fd j x hx
  · unfold files
    congr
    funext j
    by_cases hj : j = i
    · rw [hj, hself, update_self]
      rfl
    · rw [hother j hj, update_of_ne hj]
      rfl

theorem Sound.setNewFd (h : Sound s) (hd : d ∈ s.list) (flags : Flags) :
    Sound (s.setFd i (some (s.newFd d flags))) ∧ (s.setFd i (some (s.newFd d flags))).files =
      s.files.openFile i (s.dirent d).name (s.dirent d).data { flags with trunc := false } := by
  obtain ⟨hsound, hfiles⟩ := h.setFd (i := i) (o := some (s.newFd d flags)) fun x hx => by
    cases hx
    refine ⟨hd, ?_⟩
    unfold newFd
    dsimp only
    split_ifs <;> omega
  have hcontent : update s.files.content (s.dirent d).name (some (s.dirent d).data) =
      s.files.content := update_eq_self_iff.mpr (h.content hd).symm
  refine ⟨hsound, hfiles.trans ?_⟩
  unfold Files.openFile newFd
  rw [if_neg Bool.false_ne_true]
  dsimp only
  rw [hcontent, h.size d hd]
  rfl

theorem Sound.attach (h : Sound s) (hd : d ∈ s.list) (flags : Flags) :
    Sound (s.attach i d flags) ∧ (s.attach i d flags).files =
      s.files.openFile i (s.dirent d).name (s.dirent d).data flags := by
  unfold Ramfs.attach
  by_cases htrunc : flags.trunc
  · obtain ⟨hsound, hfiles⟩ := h.setDirent hd (x := { s.dirent d with data := [], size := 0 }) rfl rfl
    have hself : (s.setDirent d { s.dirent d with data := [], size := 0 }).dirent d =
        { s.dirent d with data := [], size := 0 } := update_self ..
    obtain ⟨hsound', hfiles'⟩ := hsound.setNewFd (i := i) hd flags
    rw [if_pos htrunc]
    refine ⟨hsound', hfiles'.trans ?_⟩
    rw [hfiles, hself]
    unfold Files.openFile
    rw [if_pos htrunc]
    simp
  · rw [if_neg htrunc]
    have hflags : ({ flags with trunc := false } : Flags) = flags := by
      cases flags
      simp_all
    exact hflags ▸ h.setNewFd hd flags

omit [DecidableEq ι] in
theorem Sound.create (h : Sound s) {n : Name} (hfind : s.find n.text = none) :
    Sound (s.create n.path) ∧ s.allocated ∈ (s.create n.path).list ∧
      (s.create n.path).dirent s.allocated = { name := n.text, data := [], size := 0 } ∧
      (s.create n.path).files =
        { s.files with content := update s.files.content n.text (some []) } := by
  have hfresh : s.allocated ∉ s.list := fun hin => Nat.lt_irrefl _ (h.below _ hin)
  have hself : (s.create n.path).dirent s.allocated = { name := n.text, data := [], size := 0 } := by
    have hname : (skipSlashes n.path).take ramfsNameMax = n.text := by
      rw [skipSlashes_path, take_of_length_le (Nat.le_of_lt n.short)]
    exact (update_self ..).trans (by rw [hname])
  have hother : ∀ e ∈ s.list, (s.create n.path).dirent e = s.dirent e := fun e he =>
    update_of_ne (fun heq : e = s.allocated => hfresh (heq ▸ he)) ..
  have hnames := find_eq_none.mp hfind
  have hmem : ∀ e, e ∈ (s.create n.path).list ↔ e = s.allocated ∨ e ∈ s.list := fun e => mem_cons
  have hsound : Sound (s.create n.path) := by
    refine ⟨nodup_cons.mpr ⟨hfresh, h.nodup⟩, fun e he => ?_, fun e he => ?_, fun e he e' he' heq => ?_,
      fun e he => ?_, fun i x hx => ⟨.tail _ (h.fd i x hx).1, (h.fd i x hx).2⟩⟩
    · rcases (hmem e).mp he with rfl | he
      · exact Nat.lt_succ_self _
      · exact Nat.lt_succ_of_lt (h.below e he)
    · rcases (hmem e).mp he with rfl | he
      · exact ⟨n, by rw [hself]⟩
      · rw [hother e he]
        exact h.name e he
    · rcases (hmem e).mp he with rfl | he
      · rcases (hmem e').mp he' with rfl | he'
        · rfl
        · rw [hself, hother e' he'] at heq
          exact absurd heq.symm (hnames e' he')
      · rcases (hmem e').mp he' with rfl | he'
        · rw [hself, hother e he] at heq
          exact absurd heq (hnames e he)
        · rw [hother e he, hother e' he'] at heq
          exact h.inj e he e' he' heq
    · rcases (hmem e).mp he with rfl | he
      · rw [hself]
        rfl
      · rw [hother e he]
        exact h.size e he
  refine ⟨hsound, .head _, hself, ?_⟩
  unfold files
  congr
  · funext name
    by_cases heq : name = n.text
    · rw [heq, update_self, hsound.find_iff.mpr ⟨.head _, congrArg RamfsDirent.name hself⟩,
        map_some, hself]
    · rw [update_of_ne heq]
      cases he : s.find name with
      | none =>
        have hnone : (s.create n.path).find name = none := by
          refine find_eq_none.mpr fun e hin => ?_
          rcases (hmem e).mp hin with rfl | hin
          · rw [hself]
            exact fun hsame => heq hsame.symm
          · rw [hother e hin]
            exact find_eq_none.mp he e hin
        change ((s.create n.path).find name).map _ = (s.find name).map _
        rw [hnone, he]
        rfl
      | some e =>
        obtain ⟨hin, hname⟩ := h.find_iff.mp he
        have hsome : (s.create n.path).find name = some e :=
          hsound.find_iff.mpr ⟨.tail _ hin, by rw [hother e hin, hname]⟩
        change ((s.create n.path).find name).map _ = (s.find name).map _
        rw [hsome, he, map_some, map_some, hother e hin]
  · funext j
    cases hx : s.fd j with
    | none =>
      change (s.fd j).map _ = (s.fd j).map _
      rw [hx]
      rfl
    | some x =>
      change (s.fd j).map _ = (s.fd j).map _
      rw [hx, map_some, map_some, hother _ (h.fd j x hx).1]

variable [Fintype ι] {a : Act ι} {out : Out}

/-- A call does what it is to do. -/
def Does (s : Ramfs ι) (a : Act ι) (s' : Ramfs ι) (out : Out) : Prop :=
  Sound s' ∧ s.files.Allows a out s'.files

section

variable (h : Sound s)
include h

theorem Sound.open (n : Name) (flags : Flags) (memory : Bool) (hfd : s.fd i = none) :
    s.Does (.open i n flags memory) (s.open i n.path flags memory).1 (s.open i n.path flags memory).2 := by
  have hopened : (s.files.opened i).isNone := by
    change ((s.fd i).map _).isNone
    rw [hfd]
    rfl
  unfold Does Files.Allows Files.run Ramfs.open
  dsimp only
  rw [lookup_path, if_pos hopened]
  have hcontent : s.files.content n.text = (s.find n.text).map fun d => (s.dirent d).data := rfl
  cases hfind : s.find n.text with
  | some d =>
    obtain ⟨hd, hname⟩ := h.find_iff.mp hfind
    obtain ⟨hsound, hfiles⟩ := h.attach (i := i) hd flags
    rw [hcontent, hfind]
    refine ⟨hsound, .inl ?_⟩
    rw [← hname]
    exact congrArg (fun f => some (f, Out.done)) hfiles.symm
  | none =>
    rw [hcontent, hfind]
    dsimp only [map_none]
    split_ifs with hflags hmemory
    · obtain ⟨hcreated, hin, hself, hfiles⟩ := h.create hfind
      obtain ⟨hsound, hfiles'⟩ := hcreated.attach (i := i) hin flags
      refine ⟨hsound, .inl ?_⟩
      rw [hfiles', hself, hfiles]
      unfold Files.openFile
      simp
    · exact ⟨h, .inl rfl⟩
    · exact ⟨h, .inl rfl⟩

theorem Sound.read {count : Nat} (hx : s.fd i = some x) (hcareful : s.Careful (.read i count)) :
    ∃ s' out, s.read i x count = some (s', out) ∧ s.Does (.read i count) s' out := by
  obtain ⟨hd, hpos⟩ := h.fd i x hx
  have hlength := hcareful x hx
  have hmin : (if count < x.size - x.pos then count else x.size - x.pos) = min count (x.size - x.pos) := by
    split_ifs <;> omega
  have htake : ((s.dirent x.dirent).data.drop x.pos).take (min count (x.size - x.pos)) =
      ((s.dirent x.dirent).data.drop x.pos).take count := by
    rw [take_eq_take_iff, length_drop]
    omega
  have hbytes : (((s.dirent x.dirent).data.drop x.pos).take count).length = min count (x.size - x.pos) := by
    rw [length_take, length_drop, hlength]
  obtain ⟨hsound, hfiles⟩ := h.setFd (i := i) (o := some { x with pos := x.pos + min count (x.size - x.pos) })
    fun y hy => by
      cases hy
      refine ⟨hd, ?_⟩
      dsimp only
      omega
  unfold Ramfs.read
  rw [hmin]
  dsimp only
  rw [htake, if_pos (by omega)]
  refine ⟨_, _, rfl, hsound, .inl ?_⟩
  unfold Files.run
  dsimp only
  rw [h.file hx, map_some, hfiles]
  rw [hbytes]
  rfl

omit [Fintype ι] in
theorem Sound.store (bytes : List UInt8) (hd : x.dirent ∈ s.list)
    (hroom : x.pos + bytes.length ≤ x.size)
    (hlen : bytes = [] ∨ x.pos + bytes.length ≤ (s.dirent x.dirent).data.length) :
    ∃ s', s.store i x bytes = some (s', .wrote bytes.length) ∧ Sound s' ∧ s'.files =
      Files.setPos { s.files with
          content := update s.files.content (s.dirent x.dirent).name
            (some (splice (s.dirent x.dirent).data x.pos bytes)) } i (s.dirent x.dirent).name
        (x.pos + bytes.length) := by
  have hsize : (splice (s.dirent x.dirent).data x.pos bytes).length = (s.dirent x.dirent).data.length := by
    rcases hlen with rfl | hlen
    · rw [splice_nil]
    · rw [length_splice (by omega)]
      omega
  obtain ⟨hsound, hfiles⟩ := h.setDirent hd
    (x := { s.dirent x.dirent with data := splice (s.dirent x.dirent).data x.pos bytes }) rfl
    ((h.size _ hd).trans hsize.symm)
  obtain ⟨hsound', hfiles'⟩ := hsound.setFd (i := i) (o := some { x with pos := x.pos + bytes.length })
    fun y hy => by
      cases hy
      exact ⟨hd, hroom⟩
  have hself : (s.setDirent x.dirent { s.dirent x.dirent with
      data := splice (s.dirent x.dirent).data x.pos bytes }).dirent x.dirent = { s.dirent x.dirent with
      data := splice (s.dirent x.dirent).data x.pos bytes } := update_self ..
  unfold Ramfs.store
  rw [if_pos hlen]
  refine ⟨_, rfl, hsound', hfiles'.trans ?_⟩
  rw [hfiles, map_some, hself]
  rfl

theorem Sound.write {bytes : List UInt8} {realloc : Option (List UInt8)}
    (hx : s.fd i = some x) (hcareful : s.Careful (.write i bytes realloc)) :
    ∃ s' out, s.write i x bytes realloc = some (s', out) ∧ s.Does (.write i bytes realloc) s' out := by
  obtain ⟨hd, hpos⟩ := h.fd i x hx
  have hcareful := hcareful x hx
  have hrun : s.files.run (.write i bytes realloc) = some (Files.setPos { s.files with
      content := update s.files.content (s.dirent x.dirent).name
        (some (splice (s.dirent x.dirent).data x.pos bytes)) } i (s.dirent x.dirent).name
      (x.pos + bytes.length), .wrote bytes.length) := by
    unfold Files.run
    dsimp only
    rw [h.file hx]
    rfl
  unfold Ramfs.write
  by_cases hgrow : x.size < x.pos + bytes.length
  · rw [if_pos hgrow]
    cases realloc with
    | none => exact ⟨s, .short, rfl, h, .inr ⟨i, bytes, rfl, rfl, rfl⟩⟩
    | some fill =>
      obtain ⟨hlen, hin⟩ : (s.dirent x.dirent).data.length ≤ x.pos + bytes.length ∧
          x.pos ≤ (s.dirent x.dirent).data.length := by
        rcases hcareful with rfl | ⟨hle, -⟩ | ⟨-, hnone | hfits⟩
        · rw [length_nil] at hgrow
          omega
        · omega
        · cases hnone
        · exact hfits
      obtain ⟨hsound, hfiles⟩ := h.setDirent hd (x := { s.dirent x.dirent with
        data := resize (s.dirent x.dirent).data fill (x.pos + bytes.length)
        size := x.pos + bytes.length }) rfl (length_resize ..).symm
      have hself : (s.setDirent x.dirent { s.dirent x.dirent with
          data := resize (s.dirent x.dirent).data fill (x.pos + bytes.length)
          size := x.pos + bytes.length }).dirent x.dirent = { s.dirent x.dirent with
          data := resize (s.dirent x.dirent).data fill (x.pos + bytes.length)
          size := x.pos + bytes.length } := update_self ..
      obtain ⟨s', hstore, hsound', hfiles'⟩ := hsound.store (i := i)
        (x := { x with size := x.pos + bytes.length }) bytes hd (Nat.le_refl _)
        (.inr (by rw [hself]; exact (length_resize ..).ge))
      refine ⟨s', _, hstore, hsound', .inl ?_⟩
      rw [hrun, hfiles', hself, hfiles]
      rw [splice_resize hin hlen, update_idem]
  · rw [if_neg hgrow]
    obtain ⟨s', hstore, hsound', hfiles'⟩ := h.store (i := i) bytes hd (Nat.le_of_not_lt hgrow) (by
      rcases hcareful with hnil | ⟨-, hle⟩ | ⟨hlt, -⟩
      · exact .inl hnil
      · exact .inr hle
      · exact absurd hlt hgrow)
    exact ⟨s', _, hstore, hsound', .inl (by rw [hrun, hfiles'])⟩

theorem Sound.lseek {offset : Nat} (hx : s.fd i = some x) (hcareful : s.Careful (.lseek i offset)) :
    s.Does (.lseek i offset) (s.lseek i x offset).1 (s.lseek i x offset).2 := by
  obtain ⟨hd, -⟩ := h.fd i x hx
  have hiff := hcareful x hx
  unfold Does Files.Allows Files.run Ramfs.lseek
  dsimp only
  rw [h.file hx, map_some]
  by_cases hle : offset ≤ x.size
  · obtain ⟨hsound, hfiles⟩ := h.setFd (i := i) (o := some { x with pos := offset }) fun y hy => by
      cases hy
      exact ⟨hd, hle⟩
    rw [if_pos hle, if_pos (hiff.mp hle)]
    refine ⟨hsound, .inl ?_⟩
    rw [hfiles]
    rfl
  · rw [if_neg hle, if_neg fun hlen => hle (hiff.mpr hlen)]
    exact ⟨h, .inl rfl⟩

theorem Sound.close (hx : s.fd i = some x) : s.Does (.close i) (s.setFd i none) .done := by
  obtain ⟨hsound, hfiles⟩ := h.setFd (i := i) (o := none) fun y hy => by cases hy
  have hopened : s.files.opened i = some ((s.dirent x.dirent).name, x.pos) := by
    change (s.fd i).map _ = _
    rw [hx]
    rfl
  refine ⟨hsound, .inl ?_⟩
  unfold Files.run
  dsimp only
  rw [hopened, hfiles]
  rfl

omit [DecidableEq ι] [Fintype ι] in
/-- A descriptor is open on an entry just where it is open on its name. -/
theorem Sound.open_iff (hd : d ∈ s.list) :
    (∃ i, (s.files.opened i).any fun x => x.1 = (s.dirent d).name) ↔
      ∃ i, (s.fd i).any fun fd => fd.dirent = d := by
  refine exists_congr fun i => ?_
  change ((s.fd i).map _).any _ = true ↔ _
  cases hx : s.fd i with
  | none => exact Iff.rfl
  | some x =>
    simp only [map_some, any_some, decide_eq_true_eq]
    exact ⟨fun heq => h.inj _ (h.fd i x hx).1 d hd heq, fun heq => by rw [heq]⟩

theorem Sound.unlink {n : Name} {out : Out} (hunlink : s.unlink n.path = some (s', out)) :
    s.Does (.unlink n) s' out := by
  have hcontent : s.files.content n.text = (s.find n.text).map fun d => (s.dirent d).data := rfl
  unfold Ramfs.unlink at hunlink
  rw [lookup_path] at hunlink
  unfold Does Files.Allows Files.run
  dsimp only
  rw [hcontent]
  cases hfind : s.find n.text with
  | none =>
    rw [hfind] at hunlink
    cases hunlink
    exact ⟨h, .inl rfl⟩
  | some d =>
    obtain ⟨hd, hname⟩ := h.find_iff.mp hfind
    rw [hfind] at hunlink
    dsimp only [map_some] at hunlink ⊢
    rw [← hname]
    by_cases hopen : ∃ i, (s.fd i).any fun fd => fd.dirent = d
    · rw [if_pos hopen] at hunlink
      cases hunlink
    · rw [if_neg hopen] at hunlink
      cases hunlink
      rw [if_neg (mt (h.open_iff hd).mp hopen)]
      have hmem : ∀ e, e ∈ s.list.erase d ↔ e ≠ d ∧ e ∈ s.list := fun e => h.nodup.mem_erase_iff
      have hsound : Sound { s with list := s.list.erase d } := by
        refine ⟨h.nodup.erase d, fun e he => h.below e ((hmem e).mp he).2, fun e he => h.name e ((hmem e).mp he).2,
          fun e he e' he' => h.inj e ((hmem e).mp he).2 e' ((hmem e').mp he').2,
          fun e he => h.size e ((hmem e).mp he).2, fun i x hx => ⟨(hmem _).mpr ⟨?_, (h.fd i x hx).1⟩,
            (h.fd i x hx).2⟩⟩
        rintro heq
        refine hopen ⟨i, ?_⟩
        rw [show s.fd i = some x from hx]
        simpa using heq
      refine ⟨hsound, .inl (congrArg (fun f => some (f, Out.done)) ?_)⟩
      congr
      funext name
      by_cases heq : name = (s.dirent d).name
      · have hnone : Ramfs.find { s with list := s.list.erase d } name = none := by
          refine find_eq_none.mpr fun e he hsame => ?_
          obtain ⟨hne, hin⟩ := (hmem e).mp he
          exact hne (h.inj e hin d hd (hsame.trans heq))
        rw [heq, update_self, ← heq, hnone]
        rfl
      · rw [update_of_ne heq]
        change (s.find name).map _ = (Ramfs.find { s with list := s.list.erase d } name).map _
        congr 1
        cases he : s.find name with
        | none =>
          have hnone : Ramfs.find { s with list := s.list.erase d } name = none :=
            find_eq_none.mpr fun e hin => find_eq_none.mp he e ((hmem e).mp hin).2
          exact hnone.symm
        | some e =>
          obtain ⟨hin, hsame⟩ := h.find_iff.mp he
          refine (hsound.find_iff.mpr ⟨(hmem e).mpr ⟨?_, hin⟩, hsame⟩).symm
          rintro rfl
          exact heq hsame.symm

theorem Sound.rename {old new : Name} (hcareful : s.Careful (.rename old new)) :
    s.Does (.rename old new) (s.rename old.path new.path).1 (s.rename old.path new.path).2 := by
  have hcontent : ∀ n : Name, s.files.content n.text = (s.find n.text).map fun d => (s.dirent d).data :=
    fun n => rfl
  unfold Does Files.Allows Files.run Ramfs.rename
  dsimp only
  rw [lookup_path, lookup_path, hcontent, hcontent]
  cases hnew : s.find new.text with
  | some d => exact ⟨h, .inl rfl⟩
  | none =>
    rw [hcareful.resolve_left (not_not.mpr hnew)]
    exact ⟨h, .inl rfl⟩

end

omit [DecidableEq ι] [Fintype ι] in
theorem opened_isNone (s : Ramfs ι) (i : ι) : (s.files.opened i).isNone = (s.fd i).isNone := by
  change ((s.fd i).map _).isNone = _
  rw [isNone_map]

/-- A call that has a result does what it is to do. -/
theorem Sound.exec (h : Sound s) (hcareful : s.Careful a)
    (hexec : s.exec a = some (s', out)) : s.Does a s' out := by
  cases a with
  | «open» i n flags memory =>
    obtain ⟨hfd, heq⟩ := ite_none_right_eq_some.mp hexec
    have hopen := h.open n flags memory (isNone_iff_eq_none.mp hfd)
    rw [some.inj heq] at hopen
    exact hopen
  | read i count =>
    obtain ⟨x, hx, hread⟩ := bind_eq_some_iff.mp hexec
    obtain ⟨s₁, out₁, hread₁, hdoes⟩ := h.read hx hcareful
    cases hread.symm.trans hread₁
    exact hdoes
  | write i bytes realloc =>
    obtain ⟨x, hx, hwrite⟩ := bind_eq_some_iff.mp hexec
    obtain ⟨s₁, out₁, hwrite₁, hdoes⟩ := h.write hx hcareful
    cases hwrite.symm.trans hwrite₁
    exact hdoes
  | lseek i offset =>
    obtain ⟨x, hx, heq⟩ := map_eq_some_iff.mp hexec
    have hseek := h.lseek hx hcareful
    rw [heq] at hseek
    exact hseek
  | close i =>
    obtain ⟨x, hx, heq⟩ := map_eq_some_iff.mp hexec
    cases heq
    exact h.close hx
  | unlink n => exact h.unlink hexec
  | rename old new =>
    have hrename := h.rename hcareful
    rw [some.inj hexec] at hrename
    exact hrename

theorem Sound.exec_isSome (h : Sound s) (hcareful : s.Careful a)
    (hrun : (s.files.run a).isSome) : (s.exec a).isSome := by
  have hfile : ∀ {g : Path × List UInt8 × Nat → Files ι × Out} {i : ι},
      ((s.files.file i).map g).isSome → ∃ x, s.fd i = some x := by
    intro g i hsome
    cases hx : s.fd i with
    | some x => exact ⟨x, rfl⟩
    | none =>
      have hnone : s.files.opened i = none := by
        rw [← isNone_iff_eq_none, opened_isNone, hx]
        rfl
      unfold Files.file at hsome
      rw [hnone] at hsome
      cases hsome
  cases a with
  | «open» i n flags memory =>
    unfold Files.run at hrun
    dsimp only at hrun
    rw [opened_isNone] at hrun
    by_cases hfd : (s.fd i).isNone
    · change (if _ then _ else none).isSome
      rw [if_pos hfd]
      rfl
    · rw [if_neg hfd] at hrun
      cases hrun
  | read i count =>
    obtain ⟨x, hx⟩ := hfile hrun
    obtain ⟨s₁, out₁, hread, -⟩ := h.read hx hcareful
    change ((s.fd i).bind _).isSome
    rw [hx, bind_some, hread]
    rfl
  | write i bytes realloc =>
    obtain ⟨x, hx⟩ := hfile hrun
    obtain ⟨s₁, out₁, hwrite, -⟩ := h.write hx hcareful
    change ((s.fd i).bind _).isSome
    rw [hx, bind_some, hwrite]
    rfl
  | lseek i offset =>
    obtain ⟨x, hx⟩ := hfile hrun
    change ((s.fd i).map _).isSome
    rw [hx]
    rfl
  | close i =>
    change ((s.files.opened i).map _).isSome at hrun
    change ((s.fd i).map _).isSome
    rw [isSome_map, ← not_isNone, opened_isNone, not_isNone] at hrun
    rw [isSome_map]
    exact hrun
  | unlink n =>
    have hcontent : s.files.content n.text = (s.find n.text).map fun d => (s.dirent d).data := rfl
    change (s.unlink n.path).isSome
    unfold Ramfs.unlink
    unfold Files.run at hrun
    dsimp only at hrun
    rw [hcontent] at hrun
    rw [lookup_path]
    cases hfind : s.find n.text with
    | none => rfl
    | some d =>
      obtain ⟨hd, hname⟩ := h.find_iff.mp hfind
      rw [hfind] at hrun
      dsimp only [map_some] at hrun ⊢
      rw [← hname] at hrun
      split_ifs at hrun with hopen
      · cases hrun
      · rw [if_neg (mt (h.open_iff hd).mpr hopen)]
        rfl
  | rename old new => rfl

omit [Fintype ι] [DecidableEq ι] in
theorem Initial.sound (h : Initial s) : Sound s ∧ s.files = Files.empty := by
  obtain ⟨hlist, hfd⟩ := h
  have hnone : ∀ d, d ∉ s.list := fun d hd => by
    rw [hlist] at hd
    cases hd
  refine ⟨⟨hlist ▸ nodup_nil, fun d hd => absurd hd (hnone d), fun d hd => absurd hd (hnone d),
    fun d hd => absurd hd (hnone d), fun d hd => absurd hd (hnone d), fun i x hx => ?_⟩, ?_⟩
  · rw [hfd] at hx
    cases hx
  · unfold files Files.empty
    congr
    · funext name
      rw [find_eq_none.mpr fun d hd => absurd hd (hnone d)]
      rfl
    · funext i
      rw [hfd]
      rfl

/-- While every step meets the condition, the calls do what they are to do with contents that are found by
their names; and one that is to have a result has it. -/
theorem reachable_filesKept (s : Ramfs ι)
    (h : Reachable Initial (Within (fun s a s' => s.next a = some s') Careful) s) :
    Reachable (· = Files.empty) (fun f a f' => ∃ out, f.Allows a out f') s.files ∧
      ∀ a, s.Careful a → (∀ s' out, s.exec a = some (s', out) → s.files.Allows a out s'.files) ∧
        ((s.files.run a).isSome → (s.exec a).isSome) := by
  have hkept : Sound s ∧ Reachable (· = Files.empty) (fun f a f' => ∃ out, f.Allows a out f') s.files := by
    refine h.invariant (I := fun s => Sound s ∧ Reachable (· = Files.empty)
      (fun f a f' => ∃ out, f.Allows a out f') s.files) (fun s h₀ => ⟨h₀.sound.1, .start h₀.sound.2⟩)
      fun s a s' _ ih hstep => ?_
    obtain ⟨⟨_, out⟩, hexec, rfl⟩ := Option.map_eq_some_iff.mp hstep.2
    obtain ⟨hsound, hallows⟩ := ih.1.exec hstep.1 hexec
    exact ⟨hsound, ih.2.next ⟨out, hallows⟩⟩
  exact ⟨hkept.2, fun a hcareful => ⟨fun s' out hexec => (hkept.1.exec hcareful hexec).2,
    hkept.1.exec_isSome hcareful⟩⟩

omit [Fintype ι] in
instance decidableCareful (s : Ramfs ι) (a : Act ι) : Decidable (s.Careful a) :=
  match a with
  | .read i count =>
    match hfd : s.fd i with
    | none => .isTrue (by simp [Careful, hfd])
    | some file => decidable_of_iff (min count (file.size - file.pos) =
        min count ((s.dirent file.dirent).data.length - file.pos)) (by simp [Careful, hfd])
  | .write i bytes realloc =>
    match hfd : s.fd i with
    | none => .isTrue (by simp [Careful, hfd])
    | some fd => decidable_of_iff (bytes = [] ∨
        (fd.pos + bytes.length ≤ fd.size ∧ fd.pos + bytes.length ≤ (s.dirent fd.dirent).data.length) ∨
        (fd.size < fd.pos + bytes.length ∧ (realloc = none ∨
          ((s.dirent fd.dirent).data.length ≤ fd.pos + bytes.length ∧
            fd.pos ≤ (s.dirent fd.dirent).data.length)))) (by simp [Careful, hfd])
  | .lseek i offset =>
    match hfd : s.fd i with
    | none => .isTrue (by simp [Careful, hfd])
    | some file => decidable_of_iff
        (offset ≤ file.size ↔ offset ≤ (s.dirent file.dirent).data.length) (by simp [Careful, hfd])
  | .rename old new => inferInstanceAs (Decidable (s.find new.text ≠ none ∨ s.find old.text = none))
  | .open .. | .close _ | .unlink _ => .isTrue trivial

def nameA : Name := { text := ['a'], ne_nil := by decide, no_slash := by decide, short := by decide }

def nameB : Name := { text := ['b'], ne_nil := by decide, no_slash := by decide, short := by decide }

/-- No file, and two descriptors. -/
def ramfs2 : Ramfs (Fin 2) where
  dirent := fun _ => { name := [], data := [], size := 0 }
  list := []
  allocated := 0
  fd := fun _ => none

theorem ramfs2_initial : Initial ramfs2 := ⟨rfl, fun _ => rfl⟩

/-- A file is opened, and created if it is not there. -/
def creates (i : Fin 2) : Act (Fin 2) :=
  .open i nameA { creat := true, trunc := false, append := false, wronly := false } true

/-- A file that is written, and then opened once more, is read as it was written. -/
theorem reachable_filesKept_read : ∃ s s' : Ramfs (Fin 2), s.exec (.read 1 5) = some (s', .read [1, 2, 3]) ∧
    s.files.Allows (.read 1 5) (.read [1, 2, 3]) s'.files := by
  have hrun : ∃ s ∈ runWithin next Careful ramfs2 [creates 0, .write 0 [1, 2, 3] (some []), creates 1],
      (s.exec (.read 1 5)).map Prod.snd = some (.read [1, 2, 3]) ∧
      s.Careful (.read 1 5) := by decide +kernel
  obtain ⟨s, hs, heq⟩ := Reachable.of_runWithin ramfs2_initial hrun
  obtain ⟨⟨s', out⟩, hexec, rfl⟩ := Option.map_eq_some_iff.mp heq.1
  exact ⟨s, s', hexec, ((reachable_filesKept s hs).2 _ heq.2).1 s' _ hexec⟩

theorem not_allows {s s' : Ramfs (Fin 2)} {a : Act (Fin 2)} (name : Path) (hout : out ≠ .short)
    (h : (s.files.run a).map Prod.snd ≠ some out ∨
      (s.files.run a).map (fun x => x.1.content name) ≠ some (s'.files.content name)) :
    ¬ s.files.Allows a out s'.files := by
  rintro (hrun | ⟨i, bytes, -, -, hshort⟩)
  · rw [hrun] at h
    exact h.elim (fun hne => hne rfl) fun hne => hne rfl
  · exact hout hshort

/-- Two descriptors are open on a file, and it is written through one of them. -/
def twice : List (Act (Fin 2)) := [creates 0, creates 1, .write 0 [1, 2, 3] (some [])]

/-- With another descriptor open on the file, a read misses what was written, and a write makes the file shorter;
and a file that gets another name is not found under it. -/
theorem stale_not_allowed :
    (∃ s s' : Ramfs (Fin 2), Reachable Initial (fun s a s' => next s a = some s') s ∧
      s.exec (.read 1 5) = some (s', .read []) ∧ ¬ s.files.Allows (.read 1 5) (.read []) s'.files) ∧
    (∃ s s' : Ramfs (Fin 2), Reachable Initial (fun s a s' => next s a = some s') s ∧
      s.exec (.write 1 [9] (some [])) = some (s', .wrote 1) ∧ s'.files.content ['a'] = some [9] ∧
      ¬ s.files.Allows (.write 1 [9] (some [])) (.wrote 1) s'.files) ∧
    ∃ s s' : Ramfs (Fin 2), Reachable Initial (fun s a s' => next s a = some s') s ∧
      s.exec (.rename nameA nameB) = some (s', .done) ∧ s'.files.content ['b'] = none ∧
      ¬ s.files.Allows (.rename nameA nameB) .done s'.files := by
  have hstart : Reachable Initial (fun s a s' => next s a = some s') ramfs2 := Reachable.start ramfs2_initial
  obtain ⟨s, hs, ⟨⟨s₁, _⟩, hexec₁, rfl, hread⟩, ⟨⟨s₂, _⟩, hexec₂, rfl, hcontent₂, hwrite⟩,
      ⟨s₃, _⟩, hexec₃, rfl, hcontent₃, hrename⟩ : ∃ s ∈ runAll next ramfs2 twice,
      (∃ r ∈ s.exec (.read 1 5), r.2 = .read [] ∧
        (s.files.run (.read 1 5)).map Prod.snd = some (.read [1, 2, 3])) ∧
      (∃ r ∈ s.exec (.write 1 [9] (some [])), r.2 = .wrote 1 ∧ r.1.files.content ['a'] = some [9] ∧
        (s.files.run (.write 1 [9] (some []))).map (fun x => x.1.content ['a']) = some (some [9, 2, 3])) ∧
      ∃ r ∈ s.exec (.rename nameA nameB), r.2 = .done ∧ r.1.files.content ['b'] = none ∧
        (s.files.run (.rename nameA nameB)).map (fun x => x.1.content ['b']) = some (some [1, 2, 3]) := by
    decide +kernel
  have hreach := hstart.runAll hs
  refine ⟨⟨s, s₁, hreach, hexec₁, not_allows [] (by decide) (.inl ?_)⟩,
    ⟨s, s₂, hreach, hexec₂, hcontent₂, not_allows ['a'] (by decide) (.inr ?_)⟩,
    s, s₃, hreach, hexec₃, hcontent₃, not_allows ['b'] (by decide) (.inr ?_)⟩
  · rw [hread]
    decide
  · rw [hwrite, hcontent₂]
    decide
  · rw [hrename, hcontent₃]
    decide

end Ramfs

end RtKernel.Dfs
