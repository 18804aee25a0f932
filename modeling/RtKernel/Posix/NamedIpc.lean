import Mathlib.Data.List.Basic
import RtKernel.Core.Run

/-!
# Named semaphores and message queues

A named object counts its references and lives until it is both unlinked and
closed everywhere. The two kinds keep their objects in a list each, the newest
first, and find them there by name, unlinked ones included.
-/

open List (mem_cons)

namespace RtKernel.NamedIpc

open Function

/-- `RT_NAME_MAX`. -/
def rtNameMax : Nat := 8

/-- `struct posix_sem` or `struct mqdes`, and the name of its kernel object. -/
structure PosixObject where
  name : List UInt8
  refcount : Nat
  unlinked : Bool
  deriving DecidableEq

inductive Errno
  | eexist
  | enfile
  | enoent
  deriving DecidableEq

/-- What a call returns. -/
inductive Return
  | object (x : Nat)
  | zero
  | error (errno : Errno)
  deriving DecidableEq

/-- The bits of `oflag` that are looked at. -/
structure Oflag where
  creat : Bool
  excl : Bool

/-- The objects of a kind, numbered as they are created. -/
structure Table where
  /-- `posix_sem_list` or `posix_mq_list`. -/
  list : List Nat
  object : Nat → PosixObject
  created : Nat
  /-- What has been deleted, once for each time. -/
  deleted : List Nat
  /-- How often an object was opened and not closed since. -/
  refs : Nat → Nat
  returned : Return

namespace Table

def setObject (t : Table) (x : Nat) (f : PosixObject → PosixObject) : Table :=
  { t with object := update t.object x (f (t.object x)) }

/-- `posix_sem_find` and `posix_mq_find`; `strncmp` looks at `RT_NAME_MAX` characters. -/
def posixFind (t : Table) (name : List UInt8) : Option Nat :=
  t.list.find? fun x => (t.object x).name.take rtNameMax = name.take rtNameMax

/-- `posix_sem_delete` and `posix_mq_delete`. -/
def posixDelete (t : Table) (x : Nat) : Table :=
  if x ∈ t.list then { t with list := t.list.erase x, deleted := x :: t.deleted } else t

/-- A new object, which the caller has open, in front of the list; `rt_strncpy` copies at most
`RT_NAME_MAX` characters of its name. -/
def create (t : Table) (name : List UInt8) : Table :=
  { list := t.created :: t.list
    object := update t.object t.created
      { name := name.take rtNameMax, refcount := 1, unlinked := false }
    created := t.created + 1
    deleted := t.deleted
    refs := update t.refs t.created 1
    returned := .object t.created }

/-- The body of the open functions, where `rt_malloc` and the creation of the kernel object may
fail. -/
def openObject (t : Table) (name : List UInt8) (oflag : Oflag) (malloc create : Bool) : Table :=
  if oflag.creat then
    if oflag.excl ∧ (t.posixFind name).isSome then { t with returned := .error .eexist }
    else if malloc = false ∨ create = false then { t with returned := .error .enfile }
    else t.create name
  else
    match t.posixFind name with
    | some x =>
        { t.setObject x fun o => { o with refcount := (o.refcount + 1) % 65536 } with
          refs := update t.refs x (t.refs x + 1)
          returned := .object x }
    | none => { t with returned := .error .enoent }

/-- The body of the close functions. -/
def closeObject (t : Table) (x : Nat) : Table :=
  let t : Table :=
    { t.setObject x fun o => { o with refcount := (o.refcount + 65535) % 65536 } with
      refs := update t.refs x (t.refs x - 1)
      returned := .zero }
  if (t.object x).refcount = 0 ∧ (t.object x).unlinked = true then t.posixDelete x else t

/-- The body of the unlink functions. -/
def unlinkObject (t : Table) (name : List UInt8) : Table :=
  match t.posixFind name with
  | some x =>
      let t : Table := { t.setObject x fun o => { o with unlinked := true } with returned := .zero }
      if (t.object x).refcount = 0 then t.posixDelete x else t
  | none => { t with returned := .error .enoent }

end Table

def semOpen : Table → List UInt8 → Oflag → Bool → Bool → Table := Table.openObject

def semClose : Table → Nat → Table := Table.closeObject

def semUnlink : Table → List UInt8 → Table := Table.unlinkObject

def mqOpen : Table → List UInt8 → Oflag → Bool → Bool → Table := Table.openObject

def mqClose : Table → Nat → Table := Table.closeObject

def mqUnlink : Table → List UInt8 → Table := Table.unlinkObject

inductive Kind
  | sem
  | mq
  deriving DecidableEq

inductive Call
  | open (name : List UInt8) (oflag : Oflag) (malloc create : Bool)
  | close (x : Nat)
  | unlink (name : List UInt8)

/-- Both kinds of objects. -/
structure Sys where
  sem : Table
  mq : Table

/-- A name of at most `RT_NAME_MAX - 1` characters. -/
def Short (name : List UInt8) : Prop := name.length < rtNameMax

instance : DecidablePred Short := fun _ => inferInstanceAs (Decidable (_ < _))

namespace Table

/-- The object has been created and not been deleted. -/
def Exists (t : Table) (x : Nat) : Prop := x < t.created ∧ x ∉ t.deleted

instance (t : Table) : DecidablePred t.Exists := fun _ => inferInstanceAs (Decidable (_ ∧ _))

/-- The arguments of a call: short names, and objects that are open. -/
def Admits (t : Table) : Call → Prop
  | .open name _ _ _ | .unlink name => Short name
  | .close x => t.Exists x ∧ 0 < t.refs x

instance (t : Table) : DecidablePred t.Admits := fun c =>
  match c with
  | .open _ _ _ _ | .unlink _ => inferInstanceAs (Decidable (Short _))
  | .close _ => inferInstanceAs (Decidable (_ ∧ _))

/-- A call of either kind. -/
def call (t : Table) : Call → Table
  | .open name oflag malloc create => t.openObject name oflag malloc create
  | .close x => t.closeObject x
  | .unlink name => t.unlinkObject name

end Table

/-- A call; it holds the lock of its list throughout. -/
def Kind.call : Kind → Table → Call → Table
  | .sem, t, .open name oflag malloc create => semOpen t name oflag malloc create
  | .sem, t, .close x => semClose t x
  | .sem, t, .unlink name => semUnlink t name
  | .mq, t, .open name oflag malloc create => mqOpen t name oflag malloc create
  | .mq, t, .close x => mqClose t x
  | .mq, t, .unlink name => mqUnlink t name

theorem Kind.call_eq (kind : Kind) (t : Table) (c : Call) : kind.call t c = t.call c := by
  cases kind with
  | _ =>
    cases c with
    | _ => rfl

namespace Sys

def table (s : Sys) : Kind → Table
  | .sem => s.sem
  | .mq => s.mq

def setTable (s : Sys) (t : Table) : Kind → Sys
  | .sem => { s with sem := t }
  | .mq => { s with mq := t }

/-- A call of one of the kinds. -/
def exec (s : Sys) (a : Kind × Call) : Option Sys :=
  if (s.table a.1).Admits a.2 then some (s.setTable (a.1.call (s.table a.1) a.2) a.1) else none

def Step (s : Sys) (a : Kind × Call) (s' : Sys) : Prop := s.exec a = some s'

theorem setTable_self (s : Sys) (t : Table) (kind : Kind) : (s.setTable t kind).table kind = t := by
  cases kind with
  | _ => rfl

theorem setTable_of_ne (s : Sys) (t : Table) {kind kind' : Kind} (h : kind' ≠ kind) :
    (s.setTable t kind).table kind' = s.table kind' := by
  cases kind with
  | sem =>
    cases kind' with
    | sem => exact absurd rfl h
    | mq => rfl
  | mq =>
    cases kind' with
    | sem => rfl
    | mq => exact absurd rfl h

end Sys

namespace Table

/-- No object has been created. -/
def Empty (t : Table) : Prop := t.list = [] ∧ t.created = 0 ∧ t.deleted = []

/-- The object exists under the name and is not unlinked. -/
def Named (t : Table) (name : List UInt8) (x : Nat) : Prop :=
  t.Exists x ∧ (t.object x).unlinked = false ∧ (t.object x).name = name

/-- What holds between the calls. -/
structure Consistent (t : Table) : Prop where
  /-- A name has one object at most that is not unlinked. -/
  unique : ∀ name x y, t.Named name x → t.Named name y → x = y
  /-- An object is deleted once when it is unlinked and closed everywhere, and not before. -/
  deleted : ∀ x < t.created, t.deleted.count x =
    if (t.object x).unlinked = true ∧ t.refs x = 0 then 1 else 0

/-- What an open call does about the objects that exist: it returns the one with the name, unless it
is to create one, and no unlinked one. -/
structure Opens (t t' : Table) (name : List UInt8) (oflag : Oflag) : Prop where
  named : ∀ x, t.Named name x → ¬ (oflag.creat = true ∧ oflag.excl = true) →
    t'.returned = .object x ∧ (t'.object x).refcount = (t.object x).refcount + 1 ∧
      t'.refs x = t.refs x + 1
  unlinked : ∀ x, t'.returned = .object x → (t'.object x).unlinked = false

/-- What the calls promise. -/
def Keeps (t t' : Table) : Call → Prop
  | .open name oflag _ _ => t.Opens t' name oflag
  | _ => True

/-- A call to create an object finds none of its name, unless it asks for that; a call to open one
finds one that is not unlinked and has not been opened too often, or none at all. -/
def CarefulOpen (t : Table) (name : List UInt8) (oflag : Oflag) : Prop :=
  (oflag.creat = true → oflag.excl = true ∨
    ∀ x ∈ t.list, (t.object x).name = name → (t.object x).unlinked = true) ∧
  (oflag.creat = false → ∀ x ∈ t.posixFind name,
    (t.object x).unlinked = false ∧ (t.object x).refcount < 65535)

instance (t : Table) (name : List UInt8) (oflag : Oflag) : Decidable (t.CarefulOpen name oflag) :=
  inferInstanceAs (Decidable (_ ∧ _))

def Careful (t : Table) : Call → Prop
  | .open name oflag _ _ => t.CarefulOpen name oflag
  | _ => True

instance (t : Table) : DecidablePred t.Careful := fun c =>
  match c with
  | .open name oflag _ _ => inferInstanceAs (Decidable (t.CarefulOpen name oflag))
  | .close _ | .unlink _ => inferInstanceAs (Decidable True)

/-- The invariant of careful runs. -/
structure Good (t : Table) : Prop where
  sorted : t.list.Pairwise (· > ·)
  mem : ∀ x, x ∈ t.list ↔ t.Exists x
  count : ∀ x, t.deleted.count x =
    if x < t.created ∧ (t.object x).unlinked = true ∧ t.refs x = 0 then 1 else 0
  refcount : ∀ x ∈ t.list, (t.object x).refcount = t.refs x ∧ t.refs x < 65536
  short : ∀ x ∈ t.list, Short (t.object x).name
  /-- All but the newest object of a name are unlinked. -/
  newest : ∀ x ∈ t.list, ∀ y ∈ t.list, (t.object x).name = (t.object y).name → x < y →
    (t.object x).unlinked = true

variable {t t' : Table} {x : Nat} {name : List UInt8} {oflag : Oflag}

theorem Empty.good (h : t.Empty) : t.Good := by
  obtain ⟨hlist, hcreated, hdeleted⟩ := h
  refine ⟨?_, fun x => ?_, fun x => ?_, fun x hx => ?_, fun x hx => ?_, fun x hx => ?_⟩
  · rw [hlist]
    exact .nil
  · rw [hlist, Exists, hcreated]
    exact iff_of_false (List.not_mem_nil) fun h => Nat.not_lt_zero _ h.1
  · rw [hdeleted, hcreated, if_neg fun h => Nat.not_lt_zero _ h.1]
    rfl
  all_goals
    rw [hlist] at hx
    cases hx

/-- What is found is the newest object of the name. -/
theorem Good.find (h : t.Good) (hname : Short name) (hx : t.posixFind name = some x) :
    x ∈ t.list ∧ (t.object x).name = name ∧
      ∀ y ∈ t.list, (t.object y).name = name → y ≤ x := by
  obtain ⟨hp, before, after, hlist, hbefore⟩ := List.find?_eq_some_iff_append.mp hx
  have hmem : x ∈ t.list := hlist ▸ List.mem_append_right _ (.head _)
  have htake : ∀ n, Short n → n.take rtNameMax = n := fun n hn =>
    List.take_of_length_le (Nat.le_of_lt hn)
  refine ⟨hmem, ?_, fun y hy hyname => ?_⟩
  · have heq := of_decide_eq_true hp
    rwa [htake _ (h.short x hmem), htake _ hname] at heq
  · rw [hlist] at hy
    have hsorted := h.sorted
    rw [hlist, List.pairwise_append, List.pairwise_cons] at hsorted
    rcases List.mem_append.mp hy with hy | hy
    · have hnot := hbefore y hy
      simp [hyname] at hnot
    · rcases mem_cons.mp hy with rfl | hy
      · exact Nat.le_refl _
      · exact Nat.le_of_lt (hsorted.2.1.1 y hy)

/-- Nothing is found where there is no object of the name. -/
theorem ne_of_posixFind (hx : t.posixFind name = none) :
    ∀ y ∈ t.list, (t.object y).name ≠ name := by
  intro y hy hyname
  have hnot := List.find?_eq_none.mp hx y hy
  simp [hyname] at hnot

theorem Good.find_named (h : t.Good) (hname : Short name) (hx : t.Named name x) :
    t.posixFind name = some x := by
  obtain ⟨hex, hun, hxname⟩ := hx
  have hmem := (h.mem x).mpr hex
  cases hf : t.posixFind name with
  | none => exact absurd hxname (ne_of_posixFind hf x hmem)
  | some y =>
    obtain ⟨hy, hyname, hmax⟩ := h.find hname hf
    rcases Nat.lt_or_eq_of_le (hmax x hmem hxname) with hlt | rfl
    · rw [h.newest x hmem y hy (hxname.trans hyname.symm) hlt] at hun
      cases hun
    · rfl

theorem Good.consistent (h : t.Good) : t.Consistent := by
  refine ⟨fun name x y hx hy => ?_, fun x hx => ?_⟩
  · have hname : Short name := hx.2.2 ▸ h.short x ((h.mem x).mpr hx.1)
    exact Option.some.inj ((h.find_named hname hx).symm.trans (h.find_named hname hy))
  · rw [h.count]
    simp only [hx, true_and]

/-- The references or the flag of one object change. -/
structure Changes (t t' : Table) (x : Nat) : Prop where
  list : t'.list = t.list
  created : t'.created = t.created
  deleted : t'.deleted = t.deleted
  name : (t'.object x).name = (t.object x).name
  unlinked : (t.object x).unlinked = true → (t'.object x).unlinked = true
  refcount : (t'.object x).refcount = t'.refs x ∧ t'.refs x < 65536
  other : ∀ y ≠ x, t'.object y = t.object y ∧ t'.refs y = t.refs y

namespace Changes

section

variable (h : t.Changes t' x)
include h

theorem names (y : Nat) : (t'.object y).name = (t.object y).name := by
  by_cases hy : y = x
  · rw [hy, h.name]
  · rw [(h.other y hy).1]

theorem unlinked_of {y : Nat} (hy : (t.object y).unlinked = true) :
    (t'.object y).unlinked = true := by
  by_cases hyx : y = x
  · subst hyx
    exact h.unlinked hy
  · rw [(h.other y hyx).1]
    exact hy

/-- What the list says of the object and of the others. -/
theorem refcount_of (hgood : t.Good) :
    ∀ y ∈ t.list, (t'.object y).refcount = t'.refs y ∧ t'.refs y < 65536 := by
  intro y hy
  by_cases hyx : y = x
  · exact hyx ▸ h.refcount
  · rw [(h.other y hyx).1, (h.other y hyx).2]
    exact hgood.refcount y hy

theorem newest_of (hgood : t.Good) :
    ∀ y ∈ t.list, ∀ z ∈ t.list, (t'.object y).name = (t'.object z).name → y < z →
      (t'.object y).unlinked = true := by
  intro y hy z hz hyz hlt
  rw [h.names, h.names] at hyz
  exact h.unlinked_of (hgood.newest y hy z hz hyz hlt)

end

end Changes

/-- An object changes that stays open somewhere, or linked. -/
theorem Good.change (h : t.Good) (hx : x ∈ t.list) (hc : t.Changes t' x)
    (hstays : ¬ (t'.refs x = 0 ∧ (t'.object x).unlinked = true)) : t'.Good := by
  obtain ⟨hlt, hnot⟩ := (h.mem x).mp hx
  refine ⟨hc.list ▸ h.sorted, fun y => ?_, fun y => ?_, hc.list ▸ hc.refcount_of h,
    fun y hy => ?_, hc.list ▸ hc.newest_of h⟩
  · rw [hc.list, Exists, hc.created, hc.deleted]
    exact h.mem y
  · rw [hc.deleted, hc.created]
    by_cases hyx : y = x
    · rw [hyx, List.count_eq_zero.mpr hnot, if_neg]
      exact fun hgone => hstays ⟨hgone.2.2, hgone.2.1⟩
    · rw [(hc.other y hyx).1, (hc.other y hyx).2]
      exact h.count y
  · rw [hc.names]
    exact h.short y (hc.list ▸ hy)

/-- An object is deleted that is unlinked and closed everywhere. -/
theorem Good.delete (h : t.Good) (hx : x ∈ t.list) (hc : t.Changes t' x)
    (hgone : t'.refs x = 0 ∧ (t'.object x).unlinked = true) : (t'.posixDelete x).Good := by
  obtain ⟨hlt, hnot⟩ := (h.mem x).mp hx
  have hnodup : t.list.Nodup := h.sorted.imp fun hgt => Nat.ne_of_gt hgt
  rw [posixDelete, if_pos (hc.list ▸ hx), hc.list, hc.deleted]
  refine ⟨h.sorted.sublist List.erase_sublist, fun y => ?_, fun y => ?_,
    fun y hy => hc.refcount_of h y (List.mem_of_mem_erase hy), fun y hy => ?_,
    fun y hy z hz => hc.newest_of h y (List.mem_of_mem_erase hy) z (List.mem_of_mem_erase hz)⟩
  · change y ∈ t.list.erase x ↔ y < t'.created ∧ y ∉ x :: t.deleted
    rw [hnodup.mem_erase_iff, h.mem, Exists, mem_cons, hc.created]
    tauto
  · change (x :: t.deleted).count y =
      if y < t'.created ∧ (t'.object y).unlinked = true ∧ t'.refs y = 0 then 1 else 0
    rw [hc.created]
    by_cases hyx : y = x
    · subst hyx
      rw [if_pos ⟨hlt, hgone.2, hgone.1⟩, List.count_cons_self, List.count_eq_zero.mpr hnot]
    · rw [(hc.other y hyx).1, (hc.other y hyx).2, List.count_cons_of_ne (Ne.symm hyx)]
      exact h.count y
  · change Short (t'.object y).name
    rw [hc.names]
    exact h.short y (List.mem_of_mem_erase hy)

theorem Good.return (h : t.Good) (ret : Return) : Good { t with returned := ret } :=
  ⟨h.sorted, h.mem, h.count, h.refcount, h.short, h.newest⟩

theorem create_self (t : Table) (name : List UInt8) : (t.create name).object t.created =
      { name := name.take rtNameMax, refcount := 1, unlinked := false } ∧
    (t.create name).refs t.created = 1 := ⟨update_self .., update_self ..⟩

theorem create_of_lt (t : Table) (name : List UInt8) (hx : x < t.created) :
    (t.create name).object x = t.object x ∧ (t.create name).refs x = t.refs x :=
  ⟨update_of_ne (Nat.ne_of_lt hx) .., update_of_ne (Nat.ne_of_lt hx) ..⟩

/-- A new object, whose name no other has that is not unlinked. -/
theorem Good.create (h : t.Good) (hname : Short name)
    (hother : ∀ x ∈ t.list, (t.object x).name = name → (t.object x).unlinked = true) :
    (t.create name).Good := by
  have hlt : ∀ y ∈ t.list, y < t.created := fun y hy => ((h.mem y).mp hy).1
  have hnot : t.created ∉ t.deleted := by
    intro hin
    have hcount := h.count t.created
    rw [if_neg fun hc => Nat.lt_irrefl _ hc.1] at hcount
    exact List.count_eq_zero.mp hcount hin
  have hself := (t.create_self name).1
  have hselfName : ((t.create name).object t.created).name = name := by
    rw [hself]
    exact List.take_of_length_le (Nat.le_of_lt hname)
  refine ⟨List.pairwise_cons.mpr ⟨hlt, h.sorted⟩, fun y => ?_, fun y => ?_, fun y hy => ?_,
    fun y hy => ?_, fun y hy z hz => ?_⟩
  · change y ∈ t.created :: t.list ↔ y < t.created + 1 ∧ y ∉ t.deleted
    rw [mem_cons, h.mem, Exists]
    constructor
    · rintro (rfl | ⟨hy, hnew⟩)
      · exact ⟨Nat.lt_succ_self _, hnot⟩
      · exact ⟨Nat.lt_succ_of_lt hy, hnew⟩
    · rintro ⟨hy, hnew⟩
      rcases Nat.lt_succ_iff_lt_or_eq.mp hy with hy | rfl
      · exact .inr ⟨hy, hnew⟩
      · exact .inl rfl
  · change t.deleted.count y = if y < t.created + 1 ∧ ((t.create name).object y).unlinked = true ∧
      (t.create name).refs y = 0 then 1 else 0
    rcases Nat.lt_trichotomy y t.created with hy | rfl | hy
    · rw [(t.create_of_lt name hy).1, (t.create_of_lt name hy).2, h.count]
      simp only [hy, Nat.lt_succ_of_lt hy, true_and]
    · rw [List.count_eq_zero.mpr hnot, hself, if_neg]
      exact fun hc => by cases hc.2.1
    · rw [h.count, if_neg fun hc => absurd hc.1 (Nat.not_lt_of_gt hy), if_neg]
      intro hc
      omega
  · rcases mem_cons.mp hy with rfl | hy
    · rw [hself, (t.create_self name).2]
      exact ⟨rfl, by decide⟩
    · rw [(t.create_of_lt name (hlt y hy)).1, (t.create_of_lt name (hlt y hy)).2]
      exact h.refcount y hy
  · rcases mem_cons.mp hy with rfl | hy
    · rw [hselfName]
      exact hname
    · rw [(t.create_of_lt name (hlt y hy)).1]
      exact h.short y hy
  · rcases mem_cons.mp hy with rfl | hy
    · intro _ hless
      rcases mem_cons.mp hz with rfl | hz
      · exact absurd hless (Nat.lt_irrefl _)
      · exact absurd (hlt z hz) (Nat.not_lt_of_gt hless)
    · rw [(t.create_of_lt name (hlt y hy)).1]
      rcases mem_cons.mp hz with rfl | hz
      · rw [hselfName]
        exact fun hn _ => hother y hy hn
      · rw [(t.create_of_lt name (hlt z hz)).1]
        exact h.newest y hy z hz

theorem Good.openObject (h : t.Good) (hname : Short name) {malloc create : Bool}
    (hcare : t.CarefulOpen name oflag) : (t.openObject name oflag malloc create).Good := by
  obtain ⟨hcreat, hplain⟩ := hcare
  unfold Table.openObject
  cases hc : oflag.creat with
  | true =>
    rw [if_pos rfl]
    split_ifs with hfound hfail
    · exact h.return _
    · exact h.return _
    · refine h.create hname fun x hx hxname => ?_
      rcases hcreat hc with hexcl | hnone
      · have hnot : t.posixFind name = none := by
          cases hf : t.posixFind name with
          | none => rfl
          | some y => exact absurd ⟨hexcl, by rw [hf]; rfl⟩ hfound
        exact absurd hxname (ne_of_posixFind hnot x hx)
      · exact hnone x hx hxname
  | false =>
    rw [if_neg Bool.false_ne_true]
    cases hf : t.posixFind name with
    | none => exact h.return _
    | some x =>
      obtain ⟨hx, -, -⟩ := h.find hname hf
      obtain ⟨hun, hmax⟩ := hplain hc x hf
      obtain ⟨href, -⟩ := h.refcount x hx
      refine h.change hx ⟨rfl, rfl, rfl, ?_, ?_, ?_, fun y hy => ?_⟩ fun hgone => ?_
      · simp [setObject]
      · simp [setObject]
      · simp only [setObject, update_self]
        rw [href] at hmax ⊢
        exact ⟨Nat.mod_eq_of_lt (by omega), by omega⟩
      · simp [setObject, hy]
      · have hzero := hgone.1
        simp at hzero

theorem Good.closeObject (h : t.Good) (hx : x ∈ t.list) (hopen : 0 < t.refs x) :
    (t.closeObject x).Good := by
  obtain ⟨href, hmax⟩ := h.refcount x hx
  have hchanges : t.Changes
      { t.setObject x fun o => { o with refcount := (o.refcount + 65535) % 65536 } with
        refs := update t.refs x (t.refs x - 1)
        returned := .zero } x := by
    refine ⟨rfl, rfl, rfl, ?_, ?_, ?_, fun y hy => ?_⟩
    · simp [setObject]
    · simp [setObject]
    · simp only [setObject, update_self, href]
      omega
    · simp [setObject, hy]
  unfold Table.closeObject
  dsimp only
  split_ifs with hgone
  · exact h.delete hx hchanges ⟨hchanges.refcount.1 ▸ hgone.1, hgone.2⟩
  · refine h.change hx hchanges fun hzero => hgone ⟨?_, hzero.2⟩
    exact hchanges.refcount.1.trans hzero.1

theorem Good.unlinkObject (h : t.Good) (hname : Short name) : (t.unlinkObject name).Good := by
  unfold Table.unlinkObject
  cases hf : t.posixFind name with
  | none => exact h.return _
  | some x =>
    obtain ⟨hx, -, -⟩ := h.find hname hf
    have hchanges : t.Changes
        { t.setObject x fun o => { o with unlinked := true } with returned := .zero } x := by
      refine ⟨rfl, rfl, rfl, ?_, ?_, ?_, fun y hy => ?_⟩
      · simp [setObject]
      · simp [setObject]
      · simpa only [setObject, update_self] using h.refcount x hx
      · simp [setObject, hy]
    have hunlinked : ((t.setObject x fun o => { o with unlinked := true }).object x).unlinked =
        true := by simp [setObject]
    dsimp only
    split_ifs with hgone
    · exact h.delete hx hchanges ⟨hchanges.refcount.1 ▸ hgone, hunlinked⟩
    · exact h.change hx hchanges fun hzero => hgone (hchanges.refcount.1.trans hzero.1)

theorem openObject_found (malloc create : Bool) (hc : oflag.creat = false)
    (hx : t.posixFind name = some x) :
    (t.openObject name oflag malloc create).returned = .object x ∧
      ((t.openObject name oflag malloc create).object x).unlinked = (t.object x).unlinked ∧
      ((t.openObject name oflag malloc create).object x).refcount =
        ((t.object x).refcount + 1) % 65536 ∧
      (t.openObject name oflag malloc create).refs x = t.refs x + 1 := by
  unfold openObject
  rw [hc, if_neg Bool.false_ne_true, hx]
  simp [setObject]

/-- A call to create an object returns a new one or none. -/
theorem openObject_new {malloc create : Bool} (hc : oflag.creat = true)
    (hx : (t.openObject name oflag malloc create).returned = .object x) :
    x = t.created ∧ ((t.openObject name oflag malloc create).object x).unlinked = false := by
  unfold openObject at hx ⊢
  split_ifs at hx ⊢
  cases hx
  rw [(t.create_self name).1]
  exact ⟨rfl, rfl⟩

/-- An open call keeps its promise exactly when it is careful. -/
theorem Good.opens_iff (h : t.Good) (hname : Short name) (oflag : Oflag) (malloc create : Bool) :
    t.Opens (t.openObject name oflag malloc create) name oflag ↔ t.CarefulOpen name oflag := by
  constructor
  · intro hopens
    refine ⟨fun hc => ?_, fun hc x hx => ?_⟩
    · cases hexcl : oflag.excl with
      | true => exact .inl rfl
      | false =>
        refine .inr fun x hx hxname => Bool.not_eq_false _ ▸ fun hun => ?_
        have hex := (h.mem x).mp hx
        obtain ⟨hret, -⟩ := hopens.named x ⟨hex, hun, hxname⟩ fun hboth => by
          cases hexcl.symm.trans hboth.2
        exact Nat.ne_of_lt hex.1 (openObject_new hc hret).1
    · obtain ⟨hret, hun, hcount, -⟩ := openObject_found malloc create hc hx
      obtain ⟨hmem, hxname, -⟩ := h.find hname hx
      have hlinked := hun ▸ hopens.unlinked x hret
      obtain ⟨-, hcount', -⟩ := hopens.named x ⟨(h.mem x).mp hmem, hlinked, hxname⟩ fun hboth => by
        cases hc.symm.trans hboth.1
      obtain ⟨href, hmax⟩ := h.refcount x hmem
      refine ⟨hlinked, ?_⟩
      omega
  · rintro ⟨hcreat, hplain⟩
    refine ⟨fun x hx hneither => ?_, fun x hret => ?_⟩
    · cases hc : oflag.creat with
      | true =>
        rcases hcreat hc with hexcl | hnone
        · exact absurd ⟨hc, hexcl⟩ hneither
        · have hun := hnone x ((h.mem x).mpr hx.1) hx.2.2
          rw [hx.2.1] at hun
          cases hun
      | false =>
        have hfind := h.find_named hname hx
        obtain ⟨hret, -, hcount, hrefs⟩ := openObject_found malloc create hc hfind
        have hmax := (hplain hc x hfind).2
        exact ⟨hret, hcount.trans (Nat.mod_eq_of_lt (by omega)), hrefs⟩
    · cases hc : oflag.creat with
      | true => exact (openObject_new hc hret).2
      | false =>
        cases hf : t.posixFind name with
        | none =>
          unfold Table.openObject at hret
          rw [hc, if_neg Bool.false_ne_true, hf] at hret
          cases hret
        | some y =>
          obtain ⟨hret', hun, -⟩ := openObject_found malloc create hc hf
          cases hret.symm.trans hret'
          rw [hun]
          exact (hplain hc x hf).1

/-- A call keeps its promise exactly when it is careful. -/
theorem Good.keeps_iff (h : t.Good) {c : Call} (hc : t.Admits c) :
    t.Keeps (t.call c) c ↔ t.Careful c := by
  cases c with
  | «open» name oflag malloc create => exact h.opens_iff hc oflag malloc create
  | close x => exact Iff.rfl
  | unlink name => exact Iff.rfl

theorem Good.call (h : t.Good) {c : Call} (hc : t.Admits c) (hcare : t.Careful c) :
    (t.call c).Good := by
  cases c with
  | «open» name oflag malloc create => exact h.openObject hc hcare
  | close x => exact h.closeObject ((h.mem x).mpr hc.1) hc.2
  | unlink name => exact h.unlinkObject hc

end Table

namespace Sys

/-- No object of either kind has been created. -/
def Initial (s : Sys) : Prop := s.sem.Empty ∧ s.mq.Empty

/-- What the call of a step promises. -/
def Keeps (s : Sys) (a : Kind × Call) (s' : Sys) : Prop := (s.table a.1).Keeps (s'.table a.1) a.2

def Careful (s : Sys) (a : Kind × Call) : Prop := (s.table a.1).Careful a.2

instance (s : Sys) : DecidablePred s.Careful := fun a =>
  inferInstanceAs (Decidable ((s.table a.1).Careful a.2))

/-- A step is a call of one kind, and leaves the other alone. -/
theorem step_cases {s s' : Sys} {a : Kind × Call} (hstep : Step s a s') :
    (s.table a.1).Admits a.2 ∧ s'.table a.1 = (s.table a.1).call a.2 ∧
      ∀ kind ≠ a.1, s'.table kind = s.table kind := by
  rw [Step, exec] at hstep
  split_ifs at hstep with hadmits
  cases hstep
  rw [setTable_self, Kind.call_eq]
  exact ⟨hadmits, rfl, fun kind hkind => setTable_of_ne s _ hkind⟩

/-- A careful step keeps both tables as they should be. -/
theorem good_step {s s' : Sys} {a : Kind × Call} (h : ∀ kind, (s.table kind).Good)
    (hcare : s.Careful a) (hstep : Step s a s') : ∀ kind, (s'.table kind).Good := by
  obtain ⟨hadmits, hcall, hother⟩ := step_cases hstep
  intro kind
  by_cases hkind : kind = a.1
  · rw [hkind, hcall]
    exact (h a.1).call hadmits hcare
  · rw [hother kind hkind]
    exact h kind

theorem reachable_good {s : Sys} (h : Reachable Initial (Within Step Careful) s) :
    ∀ kind, (s.table kind).Good := by
  refine h.invariant (I := fun s => ∀ kind, (s.table kind).Good) (fun s h₀ kind => ?_)
    fun _ _ _ _ hgood hstep => good_step hgood hstep.1 hstep.2
  cases kind with
  | sem => exact h₀.1.good
  | mq => exact h₀.2.good

/-- In careful runs each name has one object at most that is not unlinked, and an object is deleted
once, when it is unlinked and closed everywhere; and the next call returns the object that is to be
opened and none that is unlinked exactly when it is careful. -/
theorem reachable_named : ∀ s, Reachable Initial (Within Step Careful) s →
    (∀ kind, (s.table kind).Consistent) ∧ ∀ a s', Step s a s' → (s.Keeps a s' ↔ s.Careful a) := by
  intro s hs
  have h := reachable_good hs
  refine ⟨fun kind => (h kind).consistent, fun a s' hstep => ?_⟩
  obtain ⟨hadmits, hcall, -⟩ := step_cases hstep
  unfold Keeps
  rw [hcall]
  exact (h a.1).keeps_iff hadmits

/-- No objects. -/
def boot : Sys :=
  { sem := { list := [], object := fun _ => { name := [], refcount := 0, unlinked := false }
             created := 0, deleted := [], refs := fun _ => 0, returned := .zero }
    mq := { list := [], object := fun _ => { name := [], refcount := 0, unlinked := false }
            created := 0, deleted := [], refs := fun _ => 0, returned := .zero } }

theorem boot_initial : boot.Initial := ⟨⟨rfl, rfl, rfl⟩, rfl, rfl, rfl⟩

/-- A semaphore is created, opened, unlinked and closed, and its name used again. -/
def usedAgain : List (Kind × Call) :=
  [(.sem, .open [0x61] { creat := true, excl := true } true true),
    (.sem, .open [0x61] { creat := false, excl := false } true true),
    (.mq, .open [0x61] { creat := true, excl := false } true true),
    (.sem, .close 0), (.sem, .unlink [0x61]),
    (.sem, .open [0x61] { creat := true, excl := false } true true), (.sem, .close 0)]

/-- The first semaphore has been deleted, and the name is that of the second. -/
theorem reachable_named_again : ∃ s : Sys, s.sem.list = [1] ∧ s.sem.deleted = [0] ∧
    s.mq.list = [0] ∧ (s.table .sem).Consistent := by
  have hrun : ∃ s ∈ runWithin exec Careful boot usedAgain, s.sem.list = [1] ∧ s.sem.deleted = [0] ∧
      s.mq.list = [0] := by decide +kernel
  obtain ⟨s, hreach, heq⟩ := Reachable.of_runWithin boot_initial hrun
  exact ⟨s, heq.1, heq.2.1, heq.2.2, (reachable_named s hreach).1 .sem⟩

/-- Two calls that create a semaphore unless it exists. -/
def createdTwice : List (Kind × Call) :=
  [(.sem, .open [0x61] { creat := true, excl := false } true true),
    (.sem, .open [0x61] { creat := true, excl := false } true true)]

/-- There are two semaphores of one name then, neither of them unlinked. -/
theorem createdTwice_inconsistent :
    ∃ s : Sys, Reachable Initial Step s ∧ ¬ s.sem.Consistent := by
  have hrun : ∃ s ∈ runAll exec boot createdTwice, s.sem.Exists 0 ∧ s.sem.Exists 1 ∧
      s.sem.object 0 = { name := [0x61], refcount := 1, unlinked := false } ∧
      s.sem.object 1 = { name := [0x61], refcount := 1, unlinked := false } := by decide +kernel
  obtain ⟨s, hs, hfirst, hsecond, hobject, hobject'⟩ := Reachable.of_runAll boot_initial hrun
  refine ⟨s, hs, fun hcon => ?_⟩
  have hsame := hcon.unique [0x61] 0 1 ⟨hfirst, by rw [hobject], by rw [hobject]⟩
    ⟨hsecond, by rw [hobject'], by rw [hobject']⟩
  cases hsame

end Sys

end RtKernel.NamedIpc
