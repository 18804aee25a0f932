import RtKernel.Drivers.RingBlkSpace
import RtKernel.Ulog.AsyncOutput

/-!
# What the output thread waits for

A log call puts its log before it sends the notice, and the output thread resets the notice after
it has read the buffers. A log that is put and noticed between the two is not read until the next
notice.
-/

open List

namespace RtKernel.Ulog

open Rbb RingBuffer Function

namespace Out

/-- The block that the output thread has taken. -/
def held : Out → List Nat
  | .output _ n | .free _ n => [n]
  | _ => []

/-- The block that it has taken and not read. -/
def unread : Out → List Nat
  | .output _ n => [n]
  | _ => []

def resets : Out → Bool
  | .reset _ => true
  | _ => false

def isSuspended : Out → Bool
  | .suspended _ => true
  | _ => false

/-- The output thread waits, or is about to. -/
def waits : Out → Bool
  | .take _ | .suspended _ => true
  | _ => false

end Out

namespace Caller

/-- The block that the call has allocated and not put, with its log. -/
def filling : Caller → List (Nat × Log)
  | .package n log | .putBlk n log => [(n, log)]
  | _ => []

/-- The call has set `ulog_voutput_recursion`. -/
def recursing : Caller → Bool
  | .output _ | .package _ _ | .putBlk _ _ | .notice | .clear => true
  | _ => false

/-- The call holds the output lock. -/
def locked : Caller → Bool
  | .idle | .voutput _ | .raw _ | .create _ | .rawLock _ => false
  | _ => true

/-- The call has a block or the ring buffer, and has still to send its notice. -/
def pending : Caller → Bool
  | .package _ _ | .putBlk _ _ | .notice | .putRing _ | .putIndex _ _ | .rawNotice => true
  | _ => false

/-- The log for which the next step allocates a block. -/
def allocates (isr : Bool) : Caller → Option Log
  | .voutput log => if isr then some log else none
  | .output log => some log
  | _ => none

end Caller

/-- The ring block buffer holds a block that has been put. -/
def HoldsPut (rbb : RtRbb) : Prop := ∃ n < rbb.blkMaxNum, (rbb.blkSet n).status = .put

instance (rbb : RtRbb) : Decidable (HoldsPut rbb) := inferInstanceAs (Decidable (∃ n, n < _ ∧ _))

namespace RtUlog

variable {τ : Type*}

/-- The raw ring buffer holds bytes. -/
def HoldsRaw (s : RtUlog τ) : Prop :=
  ∃ rb ∈ s.asyncRb, ∃ ring ∈ s.rings[rb]?, rtRingbufferDataLen ring ≠ 0

/-- Something is left that has not been output. -/
def Leftover (s : RtUlog τ) : Prop := HoldsPut s.asyncRbb ∨ s.HoldsRaw

instance (s : RtUlog τ) : Decidable s.HoldsRaw :=
  decidable_of_iff ((s.asyncRb.bind fun rb => s.rings[rb]?).any
    fun ring => rtRingbufferDataLen ring ≠ 0) <| by
  unfold HoldsRaw
  cases s.asyncRb with
  | none => simp
  | some rb => cases hring : s.rings[rb]? <;> simp [hring]

instance (s : RtUlog τ) : Decidable s.Leftover := inferInstanceAs (Decidable (_ ∨ _))

/-- The call that holds the lock has still to send its notice. -/
def Pending (s : RtUlog τ) : Prop := ∃ t ∈ s.outputLocker, (s.pc t).pending = true

instance (s : RtUlog τ) : Decidable s.Pending :=
  decidable_of_iff (s.outputLocker.any fun t => (s.pc t).pending) <| by
  unfold Pending
  cases s.outputLocker with
  | _ => simp

/-- The notice is reset when nothing is left, or while a call has still to send its notice. The rest
is that the first block of an empty buffer is not larger than the buffer. -/
def Careful (c : Setup τ) (s : RtUlog τ) : Act τ → Prop
  | .out _ => s.out.resets = true → s.Leftover → s.Pending
  | .caller t _ =>
      ∀ log ∈ (s.pc t).allocates (c.isr t), Bounded s.asyncRbb (.alloc log.blkSize)
  | .log _ _ | .logRaw _ _ | .timeout => True

instance (c : Setup τ) (s : RtUlog τ) (a : Act τ) : Decidable (Careful c s a) :=
  match a with
  | .out _ => inferInstanceAs (Decidable (_ = true → _ → _))
  | .caller _ _ => inferInstanceAs (Decidable (∀ log ∈ _, Bounded _ _))
  | .log _ _ | .logRaw _ _ | .timeout => .isTrue trivial

/-- The logs with a header that the backends have been given. -/
def framed (s : RtUlog τ) : List Entry := s.entries.filter fun entry => !entry.isRaw

/-- The logs are output in the order of the calls, and once no log call is in progress and the output
thread is suspended, nothing is left. -/
structure Drained (s : RtUlog τ) : Prop where
  /-- The blocks do not overlap, so that each keeps its frame. -/
  separate : ∃ used, Separate s.asyncRbb used
  inOrder : s.framed <+: s.called.map fun log => log.frame.entry
  all : (∀ t, s.pc t = .idle) → s.out.isSuspended = true →
    ¬ HoldsPut s.asyncRbb ∧ ¬ s.HoldsRaw ∧ s.framed = s.called.map fun log => log.frame.entry

end RtUlog

theorem Log.blkSize_pos (log : Log) : 1 ≤ log.blkSize := by
  have hshort := log.short
  rw [Log.blkSize, rtAlign_eq]
  omega

/-- The blocks in use are the one that the output thread holds, those put, whose logs are `logs`, and
the one that is filled; `output` is what has been output. -/
structure Blocks (rbb : RtRbb) (frames : Nat → UlogFrame) (out : Out) (filling : List (Nat × Log))
    (output : List Entry) (called : List Log) (puts free : List Nat) (logs : List Log) : Prop where
  lists : Lists rbb (out.held ++ puts ++ filling.map Prod.fst) free
  held : ∀ n ∈ out.held, (rbb.blkSet n).status = .get
  put : ∀ n ∈ puts, (rbb.blkSet n).status = .put
  filled : ∀ p ∈ filling, (rbb.blkSet p.1).status = .inited
  frames : (out.unread ++ puts).map frames = logs.map Log.frame
  called : called.map (fun log => log.frame.entry) =
    output ++ (logs ++ filling.map Prod.snd).map fun log => log.frame.entry

section Blocks

variable {rbb : RtRbb} {frames : Nat → UlogFrame} {out : Out} {filling : List (Nat × Log)}
  {output : List Entry} {called : List Log} {puts free : List Nat} {logs : List Log} {n : Nat}
  {log : Log} {timed : Bool}

theorem setStatus_status (rbb : RtRbb) (n : Nat) (status : Status) :
    ((rbb.setStatus n status).blkSet n).status = status := by
  simp [RtRbb.setStatus, RtRbb.setBlk]

theorem setStatus_status_of_ne (rbb : RtRbb) {n i : Nat} (h : i ≠ n) (status : Status) :
    ((rbb.setStatus n status).blkSet i).status = (rbb.blkSet i).status := by
  simp [RtRbb.setStatus, RtRbb.setBlk, update_of_ne h]

namespace Blocks

section

variable (h : Blocks rbb frames out filling output called puts free logs)
include h

/-- What the output thread does to other things does not matter. -/
theorem congr {out' : Out} (hheld : out'.held = out.held) (hunread : out'.unread = out.unread) :
    Blocks rbb frames out' filling output called puts free logs where
  lists := hheld ▸ h.lists
  held := hheld ▸ h.held
  put := h.put
  filled := h.filled
  frames := hunread ▸ h.frames
  called := h.called

theorem holdsPut_iff : HoldsPut rbb ↔ puts ≠ [] := by
  constructor
  · rintro ⟨n, hn, hput⟩ rfl
    have hused := (h.lists.status n hn).mp (by rw [hput]; nofun)
    rw [append_nil, mem_append, mem_map] at hused
    obtain hheld | ⟨p, hp, rfl⟩ := hused
    · cases (h.held n hheld).symm.trans hput
    · cases (h.filled p hp).symm.trans hput
  · intro hputs
    obtain ⟨n, hn⟩ := exists_mem_of_ne_nil puts hputs
    refine ⟨n, h.lists.member n ?_, h.put n hn⟩
    simp [hn]

end

variable {r : RtRbb × Option Nat}

theorem alloc (h : Blocks rbb frames out [] output called puts free logs) (log : Log) {blkSize : Nat}
    (heq : rtRbbBlkAlloc rbb blkSize = some r) :
    (r.2 = none ∧ ∃ free', Blocks r.1 frames out [] output called puts free' logs) ∨
      ∃ n free', r.2 = some n ∧
        Blocks r.1 frames out [(n, log)] output (called ++ [log]) puts free' logs := by
  have hcall : call rbb (.alloc blkSize) = some r := heq
  have hmoves := h.lists.moves hcall
  generalize r.1 = rbb', r.2 = result at hmoves ⊢
  cases hmoves with
  | full => exact .inl ⟨rfl, free, h⟩
  | lose hfree hspace hrbb hlists =>
    subst hrbb
    exact .inl ⟨rfl, _, hlists, h.held, h.put, h.filled, h.frames, h.called⟩
  | @place _ buf n rest rbb₁ hfree hn hfits hrbb hlists₁ hlists =>
    rw [map_nil, append_nil] at hn hlists
    have hstatus : ∀ i, i ∈ out.held ++ puts →
        ((place rbb₁ n buf blkSize).1.blkSet i).status = (rbb.blkSet i).status := by
      intro i hi
      have hin : i ≠ n := fun he => hn (he ▸ hi)
      rw [hrbb]
      simp [Rbb.place, RtRbb.setBlk, listAppend, RtRbb.setNext, update_of_ne hin]
    refine .inr ⟨n, rest, rfl, hlists, ?_, ?_, ?_, h.frames, ?_⟩
    · intro i hi
      rw [hstatus i (mem_append_left _ hi)]
      exact h.held i hi
    · intro i hi
      rw [hstatus i (mem_append_right _ hi)]
      exact h.put i hi
    · intro p hp
      obtain rfl := mem_singleton.mp hp
      simp [Rbb.place, RtRbb.setBlk]
    · rw [map_append, h.called]
      simp
  | status ha => exact absurd rfl (ha blkSize)

/-- The frame of a block that is filled is of no other block. -/
theorem package (h : Blocks rbb frames out [(n, log)] output called puts free logs)
    (frame : UlogFrame) :
    Blocks rbb (update frames n frame) out [(n, log)] output called puts free logs where
  lists := h.lists
  held := h.held
  put := h.put
  filled := h.filled
  frames := by
    rw [← h.frames]
    refine map_congr_left fun i hi => update_of_ne ?_ _ _
    rintro rfl
    have hnodup := (nodup_append.mp h.lists.nodup).1
    have hdisj := (nodup_append.mp hnodup).2.2
    refine hdisj i ?_ i (mem_singleton_self i) rfl
    obtain hi | hi := mem_append.mp hi
    · refine mem_append_left _ ?_
      cases out with
      | output => exact hi
      | _ => cases hi
    · exact mem_append_right _ hi
  called := h.called

variable {rbb' : RtRbb}

section

variable (h : Blocks rbb frames out [(n, log)] output called puts free logs)
include h

theorem putFilled (hframe : frames n = log.frame) (heq : rtRbbBlkPut rbb n = some rbb') :
    Blocks rbb' frames out [] output called (puts ++ [n]) free (logs ++ [log]) := by
  have hinited := h.filled (n, log) (mem_singleton_self _)
  rw [rtRbbBlkPut, if_pos hinited] at heq
  cases heq
  have hdisj := (nodup_append.mp (nodup_append.mp h.lists.nodup).1).2.2
  have hne : ∀ i, i ∈ out.held ++ puts → i ≠ n := fun i hi =>
    hdisj i hi n (mem_singleton_self n)
  refine ⟨?_, ?_, ?_, fun p hp => absurd hp not_mem_nil, ?_, ?_⟩
  · rw [map_nil, append_nil, ← append_assoc]
    exact h.lists.setStatus (by rw [hinited]; decide) (by decide)
  · intro i hi
    rw [setStatus_status_of_ne rbb (hne i (mem_append_left _ hi))]
    exact h.held i hi
  · intro i hi
    obtain hi | hi := mem_append.mp hi
    · rw [setStatus_status_of_ne rbb (hne i (mem_append_right _ hi))]
      exact h.put i hi
    · obtain rfl := mem_singleton.mp hi
      exact setStatus_status rbb i .put
  · rw [← append_assoc, map_append, h.frames, map_append, map_singleton,
      hframe]
    rfl
  · rw [h.called, map_nil, append_nil]
    rfl

theorem placed_put
    (hplaced : Rbb.Placed rbb) (heq : rtRbbBlkPut rbb n = some rbb') : Rbb.Placed rbb' := by
  have hn := h.lists.member n (by simp)
  have hcall : call rbb (.put n) = some (rbb', none) := by
    simp only [Rbb.call, if_pos hn, heq, Option.map_some]
  exact hplaced.call (a := .put n) trivial trivial hcall

end

/-- The output thread takes the first block that has been put. -/
theorem get (h : Blocks rbb frames out filling output called puts free logs)
    (hheld : out.held = []) (hunread : out.unread = []) (heq : rtRbbBlkGet rbb = some r) :
    (r = (rbb, none) ∧ puts = []) ∨ ∃ n rest, puts = n :: rest ∧ r.2 = some n ∧
      ∀ timed, Blocks r.1 frames (.output timed n) filling output called rest free logs := by
  have hlists := h.lists
  rw [hheld, nil_append] at hlists
  rw [rtRbbBlkGet, hlists.findPut_find, Option.map_some] at heq
  cases puts with
  | nil =>
    have hnone : (filling.map Prod.fst).find? (fun n => (rbb.blkSet n).status = .put) = none := by
      rw [List.find?_eq_none]
      intro n hn
      obtain ⟨p, hp, rfl⟩ := mem_map.mp hn
      rw [h.filled p hp]
      decide
    rw [nil_append, hnone] at heq
    cases heq
    exact .inl ⟨rfl, rfl⟩
  | cons n rest =>
    have hput := h.put n (.head _)
    rw [cons_append, List.find?_cons, decide_eq_true hput] at heq
    cases heq
    have hnodup := (nodup_append.mp hlists.nodup).1
    rw [cons_append, nodup_cons, mem_append, not_or] at hnodup
    have hn := hnodup.1
    refine .inr ⟨n, rest, rfl, rfl, fun timed => ⟨?_, ?_, ?_, ?_, ?_, h.called⟩⟩
    · exact hlists.setStatus (by rw [hput]; decide) (by decide)
    · intro i hi
      obtain rfl := mem_singleton.mp hi
      exact setStatus_status rbb i .get
    · intro i hi
      have hin : i ≠ n := fun he => hn.1 (he ▸ hi)
      rw [setStatus_status_of_ne rbb hin]
      exact h.put i (mem_cons_of_mem n hi)
    · intro p hp
      have hpn : p.1 ≠ n := fun he => hn.2 (he ▸ mem_map_of_mem hp)
      rw [setStatus_status_of_ne rbb hpn]
      exact h.filled p hp
    · rw [← h.frames, hunread]
      rfl

/-- The output thread gives a frame to the backends. -/
theorem read (h : Blocks rbb frames (.output timed n) filling output called puts free logs) :
    ∃ log rest, logs = log :: rest ∧ frames n = log.frame ∧
      Blocks rbb frames (.free timed n) filling (output ++ [log.frame.entry]) called puts free
        rest := by
  have hframes := h.frames
  cases logs with
  | nil => cases hframes
  | cons log rest =>
    obtain ⟨hframe, hrest⟩ := List.cons.inj hframes
    refine ⟨log, rest, rfl, hframe, h.lists, h.held, h.put, h.filled, hrest, ?_⟩
    rw [h.called]
    simp

section

variable (h : Blocks rbb frames (.free timed n) filling output called puts free logs)
include h

theorem release (heq : rtRbbBlkFree rbb n = some rbb') :
    Blocks rbb' frames (.get timed) filling output called puts (n :: free) logs := by
  have hlists : Lists rbb (n :: (puts ++ filling.map Prod.fst)) free := h.lists
  obtain ⟨front, back, rbb₁, hsplit, hfree, hlists', hset, -⟩ :=
    hlists.rtRbbBlkFree_eq (.head _)
  cases hfree.symm.trans heq
  have hn := (nodup_cons.mp (nodup_append.mp hlists.nodup).1).1
  have hsame : front ++ back = puts ++ filling.map Prod.fst := by
    cases front with
    | nil => exact (List.cons.inj hsplit).2.symm
    | cons m front =>
      obtain ⟨rfl, hrest⟩ := List.cons.inj hsplit
      exact absurd (hrest ▸ mem_append_right _ (.head _)) hn
  have hstatus : ∀ i ∈ puts ++ filling.map Prod.fst,
      (rbb'.blkSet i).status = (rbb.blkSet i).status := by
    intro i hi
    have hin : i ≠ n := fun he => hn (he ▸ hi)
    rw [hset]
    exact setStatus_status_of_ne rbb hin _
  refine ⟨hsame ▸ hlists', nofun, ?_, ?_, h.frames, h.called⟩
  · intro i hi
    rw [hstatus i (mem_append_left _ hi)]
    exact h.put i hi
  · intro p hp
    rw [hstatus p.1 (mem_append_right _ (mem_map_of_mem hp))]
    exact h.filled p hp

theorem placed_free
    (hplaced : Rbb.Placed rbb) (heq : rtRbbBlkFree rbb n = some rbb') : Rbb.Placed rbb' := by
  have hn := h.lists.member n (by simp [Out.held])
  have hcall : call rbb (.free n) = some (rbb', none) := by
    simp only [Rbb.call, if_pos hn, heq, Option.map_some]
  exact hplaced.call (a := .free n) trivial trivial hcall

end

end Blocks

end Blocks

namespace RtUlog

variable {τ : Type*}

/-- The block that the call with the lock fills. -/
def filling (s : RtUlog τ) : List (Nat × Log) :=
  s.outputLocker.elim [] fun t => (s.pc t).filling

/-- Who holds the lock, and what it has done. -/
structure Calls (s : RtUlog τ) : Prop where
  locked : ∀ t, (s.pc t).locked = true ↔ s.outputLocker = some t
  recursion : s.voutputRecursion = s.outputLocker.any fun t => (s.pc t).recursing
  packed : ∀ t n log, s.pc t = .putBlk n log → s.frames n = log.frame

/-- What is left when the output thread waits will be noticed. -/
structure Noticed (s : RtUlog τ) : Prop where
  take : ∀ timed, s.out = .take timed → s.Leftover → s.Pending ∨ 0 < s.asyncNotice
  suspended : ∀ timed, s.out = .suspended timed → s.Leftover → s.Pending

/-- The invariant of a run. -/
structure Sound (s : RtUlog τ) : Prop where
  blocks : ∃ puts free logs,
    Blocks s.asyncRbb s.frames s.out s.filling s.framed s.called puts free logs
  placed : Rbb.Placed s.asyncRbb
  calls : s.Calls
  noticed : s.Noticed

variable {c : Setup τ} {s s' : RtUlog τ} {t : τ} {pc : Caller}

theorem Noticed.awake (h : s.out.waits = false) : s.Noticed where
  take timed htake := by
    rw [htake] at h
    cases h
  suspended timed hsuspended := by
    rw [hsuspended] at h
    cases h

theorem Noticed.of_pending (h : s.Pending) : s.Noticed where
  take _ _ _ := .inl h
  suspended _ _ _ := h

/-- A step that leaves the output thread where it is, and leaves no more than there was. -/
theorem Noticed.keep (h : s.Noticed) (hout : s'.out = s.out) (hnotice : s'.asyncNotice = s.asyncNotice)
    (hleft : s'.Leftover → s.Leftover) (hpending : s.Pending → s'.Pending) : s'.Noticed where
  take timed htake hleftover := by
    rw [hnotice]
    exact (h.take timed (hout ▸ htake) (hleft hleftover)).imp_left hpending
  suspended timed hsuspended hleftover :=
    hpending (h.suspended timed (hout ▸ hsuspended) (hleft hleftover))

/-- A release wakes the output thread up, or leaves a notice. -/
theorem semRelease_cases (s : RtUlog τ) :
    s.out.isSuspended = true ∧ s.semRelease = { s with out := .start true } ∨
      s.out.isSuspended = false ∧
        ∃ value, 0 < value ∧ s.semRelease = { s with asyncNotice := value } := by
  have hvalue : ∃ value, 0 < value ∧
      (if s.asyncNotice < Sem.rtSemValueMax then { s with asyncNotice := s.asyncNotice + 1 }
        else s) = { s with asyncNotice := value } := by
    by_cases hmax : s.asyncNotice < Sem.rtSemValueMax
    · rw [if_pos hmax]
      exact ⟨_, Nat.succ_pos _, rfl⟩
    · rw [if_neg hmax]
      exact ⟨_, Nat.lt_of_lt_of_le (by decide) (Nat.le_of_not_lt hmax), rfl⟩
  unfold semRelease
  cases hout : s.out with
  | suspended timed => exact .inl ⟨rfl, rfl⟩
  | _ =>
    rw [hout] at hvalue
    exact .inr ⟨rfl, hvalue⟩

/-- The output thread has been woken up, or there is a notice when it looks. -/
theorem Noticed.release (hout : s'.out = s.semRelease.out)
    (hnotice : s'.asyncNotice = s.semRelease.asyncNotice) : s'.Noticed := by
  obtain ⟨-, heq⟩ | ⟨hawake, value, hpos, heq⟩ := s.semRelease_cases
  · rw [heq] at hout
    exact .awake (congrArg Out.waits hout)
  · rw [heq] at hout hnotice
    refine ⟨fun _ _ _ => .inr (hnotice ▸ hpos), fun timed hsuspended => ?_⟩
    cases (congrArg Out.isSuspended (hout.symm.trans hsuspended)).symm.trans hawake

theorem semRelease_spec (s : RtUlog τ) : ∃ out value,
    s.semRelease = { s with out := out, asyncNotice := value } ∧ out.held = s.out.held ∧
      out.unread = s.out.unread := by
  obtain ⟨hout, heq⟩ | ⟨-, value, -, heq⟩ := s.semRelease_cases
  · refine ⟨_, _, heq, ?_⟩
    cases hs : s.out with
    | suspended => exact ⟨rfl, rfl⟩
    | _ =>
      rw [hs] at hout
      cases hout
  · exact ⟨_, _, heq, rfl, rfl⟩

end RtUlog

end RtKernel.Ulog
