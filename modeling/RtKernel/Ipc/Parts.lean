import RtKernel.Ipc.Objects

/-!
# What the parts of the calls do

A part of a call leaves the scheduler alone, resumes threads, or suspends the
current one. Only the mutexes change priorities. A part that returns without
`rt_schedule` has resumed nobody.
-/

open Option

namespace RtKernel

open Kernel

section

variable {τ ω : Type*} [DecidableEq τ]

/-- Threads are resumed one after the other. -/
inductive Wakes (k : Kernel τ ω) : Kernel τ ω → Prop
  | refl : Wakes k k
  | resume {k'} (h : Wakes k k') (t : τ) : Wakes k (k'.rtThreadResume t)
  | fail {k'} (h : Wakes k k') {t : τ} (ht : (k'.thread t).stat = .suspend) : Wakes k (k'.fail t)

/-- What a call does that never waits, and whether it calls `rt_schedule`. -/
inductive Posts (k : Kernel τ ω) : Kernel τ ω → Bool → Prop
  | same : Posts k k false
  | wake {k'} (h : Wakes k k') : Posts k k' true

variable [DecidableEq ω]

/-- What a part of a call does: the list that the current thread is suspended on, and whether
`rt_schedule` is called. -/
inductive Does (flag : ω → IpcFlag) (k : Kernel τ ω) : Kernel τ ω → Option ω → Bool → Prop
  | post {k' b} (h : Posts k k' b) : Does flag k k' none b
  | error (err : RtErr) : Does flag k (k.setError err) none false
  | wait (x : ω) (timed : Bool) : Does flag k (k.block x (flag x) timed) (some x) true

variable {flag : ω → IpcFlag} {k k' : Kernel τ ω}

omit [DecidableEq ω] in
theorem Wakes.ipcListResumeAll {on : τ → Option ω} (h : k.Waits on) (x : ω) :
    Wakes k (k.ipcListResumeAll x) := by
  refine (ipcListResumeAll_rule (P := fun k' => Wakes k k' ∧ k'.Waits on) ?_ ⟨.refl, h⟩).1
  intro k' t rest hk hw
  have hs := (hk.2.head hw).1
  exact ⟨hk.1.fail hs, hk.2.fail hs⟩

omit [DecidableEq ω] in
theorem Wakes.trans {k'' : Kernel τ ω} (h : Wakes k k') (h' : Wakes k' k'') : Wakes k k'' := by
  induction h' with
  | refl => exact h
  | resume _ t ih => exact ih.resume t
  | fail _ ht ih => exact ih.fail ht

theorem Does.same : Does flag k k none false := .post .same

theorem Does.suspend {x : ω} {f : IpcFlag} (hflag : flag x = f) (timed : Bool) :
    Does flag k (k.block x f timed) (some x) true := by
  rw [← hflag]
  exact .wait x timed

omit [DecidableEq ω] in
/-- Resuming the first thread of a list, if there is one. -/
theorem Posts.resumeFirst (k : Kernel τ ω) (x : ω) :
    Posts k (k.resumeFirst x).1 (Objects.needSchedule (k.resumeFirst x).2) := by
  unfold Kernel.resumeFirst Kernel.ipcListResume
  cases k.wait x with
  | nil => exact .same
  | cons t rest => exact .wake (.resume .refl t)

variable {timeout : Int}

theorem Sem.rtSemTake_does {sem sem' : RtSemaphore} {x : ω} (hflag : flag x = sem.flag)
    {outcome : Outcome} (h : rtSemTake k sem x timeout = some (k', sem', outcome)) :
    Does flag k k' (if outcome = .waits then some x else none) (outcome = .waits) ∧
      sem'.flag = sem.flag := by
  rcases rtSemTake_cases h with ⟨-, rfl, rfl, rfl⟩ | ⟨-, -, rfl, rfl, rfl⟩ | ⟨-, -, rfl, rfl, rfl⟩
  · exact ⟨.same, rfl⟩
  · exact ⟨.same, rfl⟩
  · exact ⟨.suspend hflag _, rfl⟩

omit [DecidableEq ω] in
theorem Sem.rtSemRelease_posts (k : Kernel τ ω) (sem : RtSemaphore) (x : ω) :
    Posts k (rtSemRelease k sem x).1 (k.wait x ≠ []) ∧
      (rtSemRelease k sem x).2.1.flag = sem.flag := by
  unfold rtSemRelease Kernel.ipcListResume
  cases hw : k.wait x with
  | nil =>
    split_ifs
    · exact ⟨.same, rfl⟩
    · exact ⟨.same, rfl⟩
  | cons t rest =>
    simp only [ne_eq, reduceCtorEq, not_false_eq_true, decide_true, and_true]
    exact .wake (.resume .refl t)

/-- The list that a part with this end is suspended on. -/
def endingOn (ending : Ending) (x : ω) : Option ω := if ending = .waits then some x else none

theorem Does.first (flag : ω → IpcFlag) (k : Kernel τ ω) (x y : ω) :
    Does flag k (k.resumeFirst x).1 (endingOn (k.resumeFirst x).2 y)
      (Objects.needSchedule (k.resumeFirst x).2) := by
  have hnone : endingOn (k.resumeFirst x).2 y = none := by
    unfold Kernel.resumeFirst
    split <;> rfl
  rw [hnone]
  exact .post (.resumeFirst k x)

namespace Mailbox

variable {β : Type*} {mb : RtMailbox β} {x : Side → ω} {r : Kernel τ ω × RtMailbox β × Ending}

theorem sendLoop_does (hflag : flag (x .sender) = mb.flag) (value : β) (timeout : Int) :
    let r := sendLoop k mb x value timeout
    Does flag k r.1 (endingOn r.2.2 (x .sender)) (Objects.needSchedule r.2.2) ∧
      r.2.1.flag = mb.flag := by
  unfold sendLoop
  by_cases hfull : mb.entry = mb.size
  · rw [if_pos hfull]
    by_cases ht : timeout = 0
    · rw [if_pos ht]
      exact ⟨.error .eok, rfl⟩
    · rw [if_neg ht]
      exact ⟨.suspend hflag _, rfl⟩
  · rw [if_neg hfull]
    by_cases hmax : mb.entry < rtMbEntryMax
    · simp only [hmax, if_true]
      exact ⟨.first flag k _ _, trivial⟩
    · simp only [hmax, if_false]
      exact ⟨.same, trivial⟩

theorem rtMbSendWait_does (hflag : flag (x .sender) = mb.flag) {value : β}
    (h : rtMbSendWait k mb x value timeout = some r) :
    Does flag k r.1 (endingOn r.2.2 (x .sender)) (Objects.needSchedule r.2.2) ∧
      r.2.1.flag = mb.flag := by
  unfold rtMbSendWait at h
  split_ifs at h
  · cases h
    exact ⟨.same, rfl⟩
  · cases h
    exact sendLoop_does hflag value timeout

theorem rtMbSendWait_zero {value : β} (h : rtMbSendWait k mb x value 0 = some r) :
    Posts k r.1 (Objects.needSchedule r.2.2) ∧ r.2.1.flag = mb.flag := by
  simp only [rtMbSendWait, ne_eq, not_true_eq_false, false_and, if_false, and_true] at h
  split_ifs at h with hfull
  · cases h
    exact ⟨.same, rfl⟩
  · cases h
    rw [sendLoop, if_neg hfull]
    by_cases hmax : mb.entry < rtMbEntryMax
    · simp only [hmax, if_true]
      exact ⟨.resumeFirst k _, trivial⟩
    · simp only [hmax, if_false]
      exact ⟨.same, trivial⟩

omit [DecidableEq ω] in
theorem rtMbUrgent_posts (k : Kernel τ ω) (mb : RtMailbox β) (x : Side → ω) (value : β) :
    Posts k (rtMbUrgent k mb x value).1 (Objects.needSchedule (rtMbUrgent k mb x value).2.2) ∧
      (rtMbUrgent k mb x value).2.1.flag = mb.flag := by
  unfold rtMbUrgent
  by_cases hfull : mb.entry = mb.size
  · rw [if_pos hfull]
    exact ⟨.same, rfl⟩
  · rw [if_neg hfull]
    exact ⟨.resumeFirst k _, rfl⟩

theorem recvLoop_does (hflag : flag (x .receiver) = mb.flag) (timeout : Int) :
    let r := recvLoop k mb x timeout
    Does flag k r.1 (endingOn r.2.2.1 (x .receiver)) (Objects.needSchedule r.2.2.1) ∧
      r.2.1.flag = mb.flag := by
  unfold recvLoop
  by_cases hempty : mb.entry = 0
  · rw [if_pos hempty]
    by_cases ht : timeout = 0
    · rw [if_pos ht, setError_setError]
      exact ⟨.error .etimeout, rfl⟩
    · rw [if_neg ht]
      exact ⟨.suspend hflag _, rfl⟩
  · rw [if_neg hempty]
    exact ⟨.first flag k _ _, rfl⟩

variable {r : Kernel τ ω × RtMailbox β × Ending × Option β}

theorem rtMbRecv_does (hflag : flag (x .receiver) = mb.flag)
    (h : rtMbRecv k mb x timeout = some r) :
    Does flag k r.1 (endingOn r.2.2.1 (x .receiver)) (Objects.needSchedule r.2.2.1) ∧
      r.2.1.flag = mb.flag := by
  unfold rtMbRecv at h
  split_ifs at h
  · cases h
    exact ⟨.same, rfl⟩
  · cases h
    exact recvLoop_does hflag timeout

theorem rtMbRecv_zero
    (h : rtMbRecv k mb x 0 = some r) :
    Posts k r.1 (Objects.needSchedule r.2.2.1) ∧ r.2.1.flag = mb.flag := by
  simp only [rtMbRecv, ne_eq, not_true_eq_false, false_and, if_false, and_true] at h
  split_ifs at h with hempty
  · cases h
    exact ⟨.same, rfl⟩
  · cases h
    rw [recvLoop, if_neg hempty]
    exact ⟨.resumeFirst k _, rfl⟩

end Mailbox

namespace MessageQueue

variable {β : Type*} {mq mq' : RtMessagequeue β} {x : Side → ω} {next : Next β}

/-- The list that a part with this end is suspended on. -/
def nextOn (next : Next β) (x : Side → ω) : Option ω := (next.call.bind waitsOn).map x

theorem does_first (flag : ω → IpcFlag) (k : Kernel τ ω) (y : ω) (x : Side → ω) :
    Does flag k (k.resumeFirst y).1 (nextOn (.ofEnding (k.resumeFirst y).2 : Next β) x)
      (Objects.nextNeedSchedule (.ofEnding (k.resumeFirst y).2 : Next β)) := by
  unfold Kernel.resumeFirst Kernel.ipcListResume
  cases k.wait y with
  | nil => exact .same
  | cons t rest => exact .post (.wake (.resume .refl t))

section

variable (hflag : ∀ side, flag (x side) = mq.flag)
include hflag

theorem sendLoop_does {buffer : List β} (h : sendLoop k mq x buffer timeout = (k', mq', next)) :
    Does flag k k' (nextOn next x) (Objects.nextNeedSchedule next) ∧ mq'.flag = mq.flag := by
  unfold sendLoop at h
  cases hfree : mq.msgQueueFree with
  | none =>
    rw [hfree] at h
    by_cases ht : timeout = 0
    · simp only [ht, if_true] at h
      cases h
      exact ⟨.error .eok, rfl⟩
    · simp only [ht, if_false] at h
      cases h
      exact ⟨.suspend (hflag .sender) _, rfl⟩
  | some msg =>
    rw [hfree] at h
    cases h
    exact ⟨.same, rfl⟩

theorem recvLoop_does {size : Nat} (h : recvLoop k mq x size timeout = some (k', mq', next)) :
    Does flag k k' (nextOn next x) (Objects.nextNeedSchedule next) ∧ mq'.flag = mq.flag := by
  unfold recvLoop at h
  by_cases hempty : mq.entry = 0
  · rw [if_pos hempty] at h
    by_cases ht : timeout = 0
    · rw [if_pos ht, setError_setError] at h
      cases h
      exact ⟨.error .etimeout, rfl⟩
    · rw [if_neg ht] at h
      cases h
      exact ⟨.suspend (hflag .receiver) _, rfl⟩
  · rw [if_neg hempty] at h
    obtain ⟨msg, -, heq⟩ := map_eq_some_iff.mp h
    cases heq
    exact ⟨.same, rfl⟩

theorem start_does {r : Request β} (h : start k mq x r = some (k', mq', next)) :
    Does flag k k' (nextOn next x) (Objects.nextNeedSchedule next) ∧ mq'.flag = mq.flag := by
  cases r with
  | sendWait buffer timeout =>
    simp only [start, rtMqSendWait] at h
    split_ifs at h
    · cases h
      exact ⟨.same, rfl⟩
    · cases h
      exact ⟨.same, rfl⟩
    · exact sendLoop_does hflag (some.inj h)
  | urgent buffer =>
    obtain ⟨⟨m, n⟩, hm, heq⟩ := map_eq_some_iff.mp h
    cases heq
    unfold rtMqUrgent at hm
    split_ifs at hm
    · cases hm
      exact ⟨.same, rfl⟩
    · cases hfree : mq.msgQueueFree with
      | none | some msg =>
        rw [hfree] at hm
        cases hm
        exact ⟨.same, rfl⟩
  | recv size timeout =>
    simp only [start, rtMqRecv] at h
    split_ifs at h
    · cases h
      exact ⟨.same, rfl⟩
    · exact recvLoop_does hflag h

theorem proceed_does {left : Nat} {c : Call β} (h : proceed k mq x left c = some (k', mq', next)) :
    Does flag k k' (nextOn next x) (Objects.nextNeedSchedule next) ∧ mq'.flag = mq.flag := by
  cases c with
  | sendWait buffer timeout => exact sendLoop_does hflag (some.inj h)
  | recvWait size timeout => exact recvLoop_does hflag h
  | sendCopy msg buffer urgent | recvCopy msg size =>
    cases h
    exact ⟨.same, rfl⟩
  | sendLink msg buffer urgent =>
    have hlink : (if urgent then linkFront mq msg else linkBack mq msg).flag = mq.flag := by
      cases urgent <;> rfl
    have heq := some.inj h
    unfold sendLink at heq
    by_cases hmax : (if urgent then linkFront mq msg else linkBack mq msg).entry < rtMqEntryMax
    · simp only [hmax, if_true] at heq
      cases heq
      exact ⟨does_first flag k _ x, hlink⟩
    · simp only [hmax, if_false] at heq
      cases heq
      exact ⟨.same, hlink⟩
  | recvFree msg size buffer =>
    cases h
    exact ⟨does_first flag k _ x, rfl⟩

end

omit [DecidableEq ω] in
theorem freeAll_flag {turns : Nat} (h : freeAll mq turns = some mq') : mq'.flag = mq.flag := by
  induction turns generalizing mq with
  | zero =>
    unfold freeAll at h
    split_ifs at h
    cases h
    rfl
  | succ turns ih =>
    unfold freeAll at h
    split at h
    · cases h
      rfl
    · have hrest := ih h
      exact hrest

end MessageQueue

namespace Event

/-- One of the two options is given. -/
def EventInfo.Valid (info : EventInfo) : Prop :=
  info.eventInfo &&& rtEventFlagAnd ≠ 0 ∨ info.eventInfo &&& rtEventFlagOr ≠ 0

variable {info : EventInfo}

theorem EventInfo.Valid.status_ne_none (h : info.Valid) (set : BitVec 32) :
    status info set ≠ none := by
  unfold status
  split_ifs with hand hor
  · nofun
  · nofun
  · exact absurd h (not_or.mpr ⟨hand, hor⟩)

theorem EventInfo.valid_of_status (set : BitVec 32) (h : status info set ≠ none) : info.Valid := by
  unfold status at h
  split_ifs at h with hand hor
  · exact .inl hand
  · exact .inr hor
  · exact absurd rfl h

theorem EventInfo.Valid.received (h : info.Valid) (set : BitVec 32) :
    (info.received set).Valid := by
  unfold EventInfo.received
  split_ifs
  · exact h
  · exact h

variable {event : RtEvent} {info : τ → EventInfo}

omit [DecidableEq ω] in
/-- The walk along a list of threads with valid options. -/
theorem sendWalk_does (event : RtEvent) {list : List τ} (hvalid : ∀ t ∈ list, (info t).Valid) (needSchedule : Bool) :
    let r := sendWalk k event info needSchedule list
    Wakes k r.1 ∧ r.2.1.flag = event.flag ∧ (∀ t, (info t).Valid → (r.2.2.1 t).Valid) ∧
      (r.2.2.2 = .schedules ∨ r.2.2.2 = .returns .eok ∧ needSchedule = false ∧ r.1 = k) := by
  induction list generalizing k event info needSchedule with
  | nil =>
    refine ⟨.refl, rfl, fun _ h => h, ?_⟩
    cases needSchedule with
    | false => exact .inr ⟨rfl, rfl, rfl⟩
    | true => exact .inl rfl
  | cons thread rest ih =>
    have hrest := fun t ht => hvalid t (.tail _ ht)
    have hthread := hvalid thread (.head _)
    unfold sendWalk
    cases hstatus : status (info thread) event.set with
    | none => exact absurd hstatus (hthread.status_ne_none _)
    | some met =>
      cases met with
      | false => exact ih event hrest needSchedule
      | true =>
        have hkeeps : ∀ t, (info t).Valid →
            (Function.update info thread ((info thread).received event.set) t).Valid := by
          intro t ht
          by_cases heq : t = thread
          · subst heq
            rw [Function.update_self]
            exact ht.received _
          · rw [Function.update_of_ne heq]
            exact ht
        obtain ⟨hwakes, hflag, hinfo, hending⟩ := ih (k := k.rtThreadResume thread)
          (event.clear ((info thread).received event.set))
          (fun t ht => hkeeps t (hrest t ht)) true
        refine ⟨(Wakes.resume .refl thread).trans hwakes, hflag.trans ?_,
          fun t ht => hinfo t (hkeeps t ht), ?_⟩
        · unfold RtEvent.clear
          split_ifs <;> rfl
        · exact hending.imp_right fun h => by cases h.2.1

omit [DecidableEq ω] in
/-- A send resumes those who are satisfied, and calls `rt_schedule` when there are any. -/
theorem rtEventSend_posts (event : RtEvent) {x : ω} (hvalid : ∀ t ∈ k.wait x, (info t).Valid) (set : BitVec 32) :
    let r := rtEventSend k event info x set
    Posts k r.1 (Objects.needSchedule r.2.2.2) ∧ r.2.1.flag = event.flag ∧
      ∀ t, (info t).Valid → (r.2.2.1 t).Valid := by
  unfold rtEventSend
  by_cases hzero : set = 0
  · rw [if_pos hzero]
    exact ⟨.same, rfl, fun _ h => h⟩
  · rw [if_neg hzero]
    obtain ⟨hwakes, hflag, hinfo, hending⟩ := sendWalk_does (k := k)
      { event with set := event.set ||| set } hvalid false
    refine ⟨?_, hflag, hinfo⟩
    rcases hending with hs | ⟨hr, -, hk⟩
    · rw [hs]
      exact .wake hwakes
    · rw [hr, hk]
      exact .same

theorem rtEventRecv_does {x : ω} (hflag : flag x = event.flag) {set : BitVec 32} {option : BitVec 8}
    {r : Kernel τ ω × RtEvent × (τ → EventInfo) × Ending}
    (h : rtEventRecv k event info x set option timeout = some r) :
    Does flag k r.1 (endingOn r.2.2.2 x) (Objects.needSchedule r.2.2.2) ∧ r.2.1.flag = event.flag ∧
      (∀ t, (info t).Valid → (r.2.2.1 t).Valid) ∧
      (r.2.2.2 = .waits → (r.2.2.1 k.current).Valid) := by
  have hupdate : ∀ wanted : EventInfo, wanted.Valid → ∀ t, (info t).Valid →
      (Function.update info k.current wanted t).Valid := by
    intro wanted hwanted t ht
    by_cases heq : t = k.current
    · subst heq
      rw [Function.update_self]
      exact hwanted
    · rw [Function.update_of_ne heq]
      exact ht
  have hwanted : ∀ met, status { eventSet := set, eventInfo := option } event.set = some met →
      EventInfo.Valid { eventSet := set, eventInfo := option } := by
    intro met hstatus
    apply EventInfo.valid_of_status event.set
    rw [hstatus]
    exact some_ne_none _
  obtain rfl | ⟨hstatus, rfl⟩ | ⟨hstatus, rfl | rfl⟩ := rtEventRecv_cases h
  · exact ⟨.same, rfl, fun _ h => h, fun h => by cases h⟩
  · refine ⟨.error .eok, ?_, hupdate _ (hwanted true hstatus), fun h => by cases h⟩
    unfold RtEvent.clear
    split_ifs <;> rfl
  · exact ⟨.error .etimeout, rfl, fun _ h => h, fun h => by cases h⟩
  · refine ⟨.suspend hflag _, rfl, hupdate _ (hwanted false hstatus), fun _ => ?_⟩
    simp only [Function.update_self]
    exact hwanted false hstatus

end Event

namespace Mutex

variable {m m' : RtMutex τ} {x : ω}

/-- A take returns, or lends the priority of the current thread and suspends it. -/
theorem rtMutexTake_does (flag : ω → IpcFlag) (hm : m.Ok)
    (hp : (k.thread k.current).currentPriority < 32) {outcome : Outcome}
    (h : rtMutexTake k m x timeout = some (k', m', outcome)) :
    m'.Ok ∧ ((outcome ≠ .waits ∧ Does flag k k' none false) ∨
      ∃ owner, m.owner = some owner ∧ owner ≠ k.current ∧ timeout ≠ 0 ∧ outcome = .waits ∧
        k' = (lend (k.setError .eok) owner).block x .prio (0 < timeout)) := by
  have hmax : 1 ≤ rtMutexHoldMax := by decide
  rcases rtMutexTake_cases hm h with ⟨howner, rfl, hhold, rfl, rfl⟩ | ⟨-, rfl, rfl, rfl⟩ |
    ⟨err, -, rfl, rfl, -, hk⟩ | ⟨owner, howner, hne, ht, rfl, rfl, rfl⟩
  · refine ⟨?_, .inl ⟨nofun, .error .eok⟩⟩
    rcases hm with ⟨-, hnone, -⟩ | ⟨hv, ho, -, -, hprio⟩
    · cases hnone.symm.trans howner
    · exact .inr ⟨hv, ho, Nat.succ_pos _, hhold, hprio⟩
  · exact ⟨.inr ⟨rfl, nofun, Nat.one_pos, hmax, hp⟩, .inl ⟨nofun, .error .eok⟩⟩
  · refine ⟨hm, .inl ⟨nofun, ?_⟩⟩
    rcases hk with rfl | rfl
    · exact .error .eok
    · rw [setError_setError]
      exact .error .etimeout
  · exact ⟨hm, .inr ⟨owner, howner, hne, ht, rfl, rfl⟩⟩

omit [DecidableEq τ] [DecidableEq ω] in
theorem owned (hm : m.Ok) {t : τ} (howner : m.owner = some t) : m.originalPriority < 32 := by
  rcases hm with ⟨-, hnone, -⟩ | ⟨-, -, -, -, hp⟩
  · cases hnone.symm.trans howner
  · exact hp

/-- Whether `rt_mutex_release` calls `rt_schedule`. -/
def releaseSchedules (k : Kernel τ ω) (m : RtMutex τ) (x : ω) : Prop :=
  m.owner = some k.current ∧ (m.hold + 255) % 256 = 0 ∧ k.wait x ≠ []

instance (k : Kernel τ ω) (m : RtMutex τ) (x : ω) : Decidable (releaseSchedules k m x) :=
  inferInstanceAs (Decidable (_ ∧ _ ∧ _))

/-- A release leaves the scheduler alone, or gives the current thread its priority back, and then
resumes the first waiter if there is one. -/
theorem rtMutexRelease_does (flag : ω → IpcFlag) (hm : m.Ok)
    (hcalm : ∀ p, (restore k p).wait = k.wait) (hp : ∀ t, m.originalPriority < 32 →
      ((restore k m.originalPriority).thread t).currentPriority < 32) :
    (rtMutexRelease k m x).2.1.Ok ∧
      ((¬ releaseSchedules k m x ∧ Does flag k (rtMutexRelease k m x).1 none false) ∨
      (∃ t rest, releaseSchedules k m x ∧ m.owner = some k.current ∧ k.wait x = t :: rest ∧
        (rtMutexRelease k m x).1 = (restore k m.originalPriority).rtThreadResume t) ∨
      (¬ releaseSchedules k m x ∧ m.owner = some k.current ∧ m.hold = 1 ∧ k.wait x = [] ∧
        (rtMutexRelease k m x).1 = restore k m.originalPriority)) := by
  have hmax : 1 ≤ rtMutexHoldMax := by decide
  rcases rtMutexRelease_cases hm x with ⟨howner, heq⟩ | ⟨howner, hhold, heq⟩ |
    ⟨t, rest, howner, hhold, hwait, heq⟩ | ⟨howner, hhold, hwait, heq⟩
  · rw [heq]
    exact ⟨hm, .inl ⟨fun h => howner h.1, .error .error⟩⟩
  · rw [heq]
    rcases hm with ⟨-, hnone, -⟩ | ⟨hv, ho, hpos, hmax, hprio⟩
    · cases hnone.symm.trans howner
    · unfold rtMutexHoldMax at hmax
      refine ⟨.inr ⟨hv, ho, ?_, ?_, hprio⟩, .inl ⟨?_, .same⟩⟩
      · simp only
        omega
      · simp only [rtMutexHoldMax]
        omega
      · rintro ⟨-, hzero, -⟩
        omega
  · rw [heq]
    rw [hcalm] at hwait
    refine ⟨.inr ⟨rfl, some_ne_none _, Nat.one_pos, hmax, hp t (owned hm howner)⟩, .inr (.inl
      ⟨t, rest, ⟨howner, ?_, ?_⟩, howner, hwait, rfl⟩)⟩
    · rw [hhold]
    · rw [hwait]
      exact List.cons_ne_nil _ _
  · rw [heq]
    rw [hcalm] at hwait
    exact ⟨.inl ⟨rfl, rfl, rfl⟩, .inr (.inr ⟨fun h => h.2.2 hwait, howner, hhold, hwait, rfl⟩)⟩

end Mutex

end

namespace Objects

variable {τ ι β : Type*} [DecidableEq τ] [DecidableEq ι]

/-- What a part leaves of the objects: the flags, and the options that threads have filled in. -/
structure Keeps (o o' : Objects τ ι β) : Prop where
  flag : o'.flag = o.flag
  mutex : ∀ x, (o'.mutex x).Ok
  valid : ∀ t, (o.info t).Valid → (o'.info t).Valid

variable {o : Objects τ ι β} {k : Kernel τ (WaitList ι)}

section

omit [DecidableEq τ]

variable {x : ι}

/-- A property that the new object has like the old one. -/
theorem update_congr {α γ : Type*} {f : ι → α} {v : α} (g : α → γ) (h : g v = g (f x)) (y : ι) :
    g (Function.update f x v y) = g (f y) := by
  by_cases hy : y = x
  · subst hy
    rw [Function.update_self, h]
  · rw [Function.update_of_ne hy]

section

variable (hm : ∀ x, (o.mutex x).Ok)
include hm

theorem setSem_keeps {sem : Sem.RtSemaphore}
    (hflag : sem.flag = (o.sem x).flag) : Keeps o (o.setSem x sem) := by
  refine ⟨?_, hm, fun _ h => h⟩
  funext w
  cases w with
  | sem y => exact update_congr Sem.RtSemaphore.flag hflag y
  | _ => rfl

theorem setMutex_keeps (x : ι) {mutex : Mutex.RtMutex τ}
    (hok : mutex.Ok) : Keeps o (o.setMutex x mutex) := by
  refine ⟨?_, ?_, fun _ h => h⟩
  · funext w
    cases w with
    | _ => rfl
  · intro y
    change (Function.update o.mutex x mutex y).Ok
    by_cases hy : y = x
    · subst hy
      rw [Function.update_self]
      exact hok
    · rw [Function.update_of_ne hy]
      exact hm y

theorem setMailbox_keeps {mb : Mailbox.RtMailbox β}
    (hflag : mb.flag = (o.mailbox x).flag) : Keeps o (o.setMailbox x mb) := by
  refine ⟨?_, hm, fun _ h => h⟩
  funext w
  cases w with
  | mailbox y side => exact update_congr Mailbox.RtMailbox.flag hflag y
  | _ => rfl

theorem setQueue_keeps {mq : MessageQueue.RtMessagequeue β}
    (hflag : mq.flag = (o.queue x).flag) : Keeps o (o.setQueue x mq) := by
  refine ⟨?_, hm, fun _ h => h⟩
  funext w
  cases w with
  | queue y side => exact update_congr MessageQueue.RtMessagequeue.flag hflag y
  | _ => rfl

theorem setEvent_keeps {event : Event.RtEvent}
    {info : τ → Event.EventInfo} (hflag : event.flag = (o.event x).flag)
    (hinfo : ∀ t, (o.info t).Valid → (info t).Valid) : Keeps o (o.setEvent x event info) := by
  refine ⟨?_, hm, hinfo⟩
  funext w
  cases w with
  | event y => exact update_congr Event.RtEvent.flag hflag y
  | _ => rfl

end

end

namespace Sys

/-- The invariant of a run. -/
structure Good (s : Sys τ ι β) : Prop where
  ok : s.Ok waitsOn
  mutex : ∀ x, (s.objects.mutex x).Ok
  /-- Who waits for an event has given an option. -/
  valid : ∀ t x, s.call t = some (.event x) → (s.objects.info t).Valid

variable {s s' : Sys τ ι β} {p : Part τ ι β}

/-- What the first part of a call does to the scheduler and the lists. -/
inductive Moves (s : Sys τ ι β) : Request ι β → Kernel τ (WaitList ι) → Option (WaitList ι) → Bool →
    Prop
  | does {r k w b} (h : Does s.objects.flag s.kernel k w b) : Moves s r k w b
  /-- `rt_mutex_take` waits for the owner and lends it its priority. -/
  | lend {x timeout owner} (timed : Bool) (howner : (s.objects.mutex x).owner = some owner)
      (hne : owner ≠ s.kernel.current) (ht : timeout ≠ 0) :
      Moves s (.mutexTake x timeout)
        ((Mutex.lend (s.kernel.setError .eok) owner).block (.mutex x) .prio timed)
        (some (.mutex x)) true
  /-- The last `rt_mutex_release` resumes the first waiter. -/
  | hand {x t rest} (howner : (s.objects.mutex x).owner = some s.kernel.current)
      (hwait : s.kernel.wait (.mutex x) = t :: rest) :
      Moves s (.mutexRelease x)
        ((Mutex.restore s.kernel (s.objects.mutex x).originalPriority).rtThreadResume t) none true
  /-- The last `rt_mutex_release` finds nobody waiting. -/
  | restore {x} (howner : (s.objects.mutex x).owner = some s.kernel.current)
      (hhold : (s.objects.mutex x).hold = 1) (hwait : s.kernel.wait (.mutex x) = []) :
      Moves s (.mutexRelease x)
        (Mutex.restore s.kernel (s.objects.mutex x).originalPriority) none false

section

omit [DecidableEq τ]

theorem mailboxPart_on (o : Objects τ ι β) (x : ι) (c : Mailbox.Call β) {side : Side}
    (hside : Mailbox.waitsOn c = some side) (k : Kernel τ (WaitList ι)) (mb : Mailbox.RtMailbox β)
    (ending : Ending) :
    (o.mailboxPart x c k mb ending).call.bind waitsOn = endingOn ending (.mailbox x side) := by
  unfold mailboxPart endingOn
  by_cases hending : ending = .waits
  · rw [if_pos hending, if_pos hending, bind_some, waitsOn, hside, map_some]
  · rw [if_neg hending, if_neg hending, bind_none]

theorem queuePart_on (o : Objects τ ι β) (x : ι) (k : Kernel τ (WaitList ι))
    (mq : MessageQueue.RtMessagequeue β) (next : MessageQueue.Next β) :
    (o.queuePart x k mq next).call.bind waitsOn = MessageQueue.nextOn next (.queue x) := by
  cases next with
  | goes c => rfl
  | _ => rfl

theorem mailboxPart_call {o : Objects τ ι β} {x y : ι} {c : Mailbox.Call β}
    {k : Kernel τ (WaitList ι)} {mb : Mailbox.RtMailbox β} {ending : Ending} :
    (o.mailboxPart x c k mb ending).call ≠ some (.event y) := by
  unfold mailboxPart
  split_ifs
  · nofun
  · nofun

theorem queuePart_call {o : Objects τ ι β} {x y : ι} {k : Kernel τ (WaitList ι)}
    {mq : MessageQueue.RtMessagequeue β} {next : MessageQueue.Next β} :
    (o.queuePart x k mq next).call ≠ some (.event y) := by
  cases next with
  | goes c => nofun
  | _ => nofun

end

/-- What a part leaves. -/
structure Leaves (s : Sys τ ι β) (p : Part τ ι β) : Prop where
  keeps : Keeps s.objects p.objects
  event : ∀ x, p.call = some (.event x) → (p.objects.info s.kernel.current).Valid

section

omit [DecidableEq τ] [DecidableEq ι]

/-- Whoever is in a suspend list is not the current thread, when that runs. -/
theorem Good.ne_current (h : s.Good) (hrun : s.Running) {t : τ} {w : WaitList ι}
    (ht : t ∈ s.kernel.wait w) : t ≠ s.kernel.current := by
  rintro rfl
  cases hrun.symm.trans (h.ok.waits.onlySuspended w _ ht)

theorem Good.waiting (h : s.Good) {t : τ} (ht : t ∈ s.kernel.wait (.event x)) :
    (s.objects.info t).Valid := by
  obtain ⟨-, hon⟩ := (h.ok.waits.mem _ t).mp ht
  obtain ⟨c, hc, hwaits⟩ := bind_eq_some_iff.mp hon
  cases c with
  | event y => exact h.valid t y hc
  | mailbox y c | queue y c =>
    obtain ⟨side, -, heq⟩ := map_eq_some_iff.mp hwaits
    cases heq
  | _ => cases hwaits

end

theorem Good.start (h : s.Good) {r : Request ι β} (hp : start s.kernel s.objects r = some p) :
    Moves s r p.kernel (p.call.bind waitsOn) p.needSchedule ∧ s.Leaves p := by
  obtain ⟨started, hinv⟩ := h.ok.inv
  cases r with
  | semTake x timeout =>
    obtain ⟨⟨k, sem, outcome⟩, hk, rfl⟩ := map_eq_some_iff.mp hp
    obtain ⟨hdoes, hflag⟩ := Sem.rtSemTake_does (s.objects.flag_sem x) hk
    refine ⟨.does ?_, setSem_keeps h.mutex hflag, ?_⟩
    · cases outcome with
      | waits => exact hdoes
      | returns err => exact hdoes
    · cases outcome with
      | waits => nofun
      | returns err => nofun
  | mutexTake x timeout =>
    obtain ⟨⟨k, mutex, outcome⟩, hk, rfl⟩ := map_eq_some_iff.mp hp
    obtain ⟨hok, hcases⟩ := Mutex.rtMutexTake_does s.objects.flag (h.mutex x)
      (hinv.queues.priority _) hk
    have hkeeps := setMutex_keeps h.mutex x hok
    rcases hcases with ⟨houtcome, hdoes⟩ | ⟨owner, howner, hne, ht, rfl, rfl⟩
    · cases outcome with
      | waits => exact absurd rfl houtcome
      | returns err => exact ⟨.does hdoes, hkeeps, nofun⟩
    · exact ⟨.lend _ howner hne ht, hkeeps, nofun⟩
  | mutexRelease x =>
    cases hp
    have hcalm : ∀ p, (Mutex.restore s.kernel p).wait = s.kernel.wait := by
      intro p
      unfold Mutex.restore
      split_ifs
      · exact (calm_changePriority h.ok.waits.onlySuspended _ _).wait
      · rfl
    have hprio : ∀ t, (s.objects.mutex x).originalPriority < 32 →
        ((Mutex.restore s.kernel (s.objects.mutex x).originalPriority).thread t).currentPriority <
          32 := by
      intro t hp
      unfold Mutex.restore
      split_ifs
      · exact (hinv.changePriority _ hp).queues.priority t
      · exact hinv.queues.priority t
    obtain ⟨hok, hcases⟩ := Mutex.rtMutexRelease_does (x := .mutex x) s.objects.flag (h.mutex x)
      hcalm hprio
    refine ⟨?_, setMutex_keeps h.mutex x hok, nofun⟩
    change Moves s _ (Mutex.rtMutexRelease s.kernel (s.objects.mutex x) (.mutex x)).1 none
      (decide (Mutex.releaseSchedules s.kernel (s.objects.mutex x) (.mutex x)))
    rcases hcases with ⟨hnot, hdoes⟩ | ⟨t, rest, hs, howner, hwait, hk⟩ |
      ⟨hnot, howner, hhold, hwait, hk⟩
    · rw [decide_eq_false hnot]
      exact .does hdoes
    · rw [decide_eq_true hs, hk]
      exact .hand howner hwait
    · rw [decide_eq_false hnot, hk]
      exact .restore howner hhold hwait
  | mbSend x value timeout =>
    obtain ⟨⟨k, mb, ending⟩, hr, rfl⟩ := map_eq_some_iff.mp hp
    obtain ⟨hdoes, hflag⟩ := Mailbox.rtMbSendWait_does (s.objects.flag_mailbox x .sender) hr
    refine ⟨.does ?_, setMailbox_keeps h.mutex hflag, fun y hy => ?_⟩
    · rw [mailboxPart_on s.objects x _ rfl]
      exact hdoes
    · exact (mailboxPart_call hy).elim
  | mbRecv x timeout =>
    obtain ⟨⟨k, mb, ending, value⟩, hr, rfl⟩ := map_eq_some_iff.mp hp
    obtain ⟨hdoes, hflag⟩ := Mailbox.rtMbRecv_does (s.objects.flag_mailbox x .receiver) hr
    refine ⟨.does ?_, setMailbox_keeps h.mutex hflag, fun y hy => ?_⟩
    · rw [mailboxPart_on s.objects x _ rfl]
      exact hdoes
    · exact (mailboxPart_call hy).elim
  | mq x r =>
    obtain ⟨⟨k, mq, next⟩, hr, rfl⟩ := map_eq_some_iff.mp hp
    obtain ⟨hdoes, hflag⟩ := MessageQueue.start_does (s.objects.flag_queue x) hr
    refine ⟨.does ?_, setQueue_keeps h.mutex hflag, fun y hy => ?_⟩
    · rw [queuePart_on]
      exact hdoes
    · exact (queuePart_call hy).elim
  | eventRecv x set option timeout =>
    obtain ⟨⟨k, event, info, ending⟩, hr, rfl⟩ := map_eq_some_iff.mp hp
    obtain ⟨hdoes, hflag, hinfo, hwanted⟩ := Event.rtEventRecv_does (s.objects.flag_event x) hr
    refine ⟨.does ?_, setEvent_keeps h.mutex hflag hinfo, ?_⟩
    · cases ending with
      | waits => exact hdoes
      | _ => exact hdoes
    · intro y hy
      cases ending with
      | waits => exact hwanted rfl
      | _ => cases hy

theorem Good.proceed (h : s.Good) {left : Nat} {c : Call ι β}
    (hp : proceed s.kernel s.objects left c = some p) :
    Does s.objects.flag s.kernel p.kernel (p.call.bind waitsOn) p.needSchedule ∧ s.Leaves p := by
  have hkeeps : Keeps s.objects s.objects := ⟨rfl, h.mutex, fun _ h => h⟩
  cases c with
  | sem x | mutex x | event x =>
    cases hp
    exact ⟨.same, hkeeps, nofun⟩
  | mailbox x c =>
    cases c with
    | sendWait value timeout =>
      cases hp
      obtain ⟨hdoes, hflag⟩ := Mailbox.sendLoop_does (k := s.kernel)
        (s.objects.flag_mailbox x .sender) value (remaining timeout left)
      refine ⟨?_, setMailbox_keeps h.mutex hflag, fun y hy => ?_⟩
      · rw [mailboxPart_on s.objects x _ rfl]
        exact hdoes
      · exact (mailboxPart_call hy).elim
    | recv timeout =>
      cases hp
      obtain ⟨hdoes, hflag⟩ := Mailbox.recvLoop_does (k := s.kernel)
        (s.objects.flag_mailbox x .receiver) (remaining timeout left)
      refine ⟨?_, setMailbox_keeps h.mutex hflag, fun y hy => ?_⟩
      · rw [mailboxPart_on s.objects x _ rfl]
        exact hdoes
      · exact (mailboxPart_call hy).elim
  | queue x c =>
    obtain ⟨⟨k, mq, next⟩, hr, rfl⟩ := map_eq_some_iff.mp hp
    obtain ⟨hdoes, hflag⟩ := MessageQueue.proceed_does (s.objects.flag_queue x) hr
    refine ⟨?_, setQueue_keeps h.mutex hflag, fun y hy => ?_⟩
    · rw [queuePart_on]
      exact hdoes
    · exact (queuePart_call hy).elim

theorem Good.post (h : s.Good) {p : Post ι β} {r : Kernel τ (WaitList ι) × Objects τ ι β × Bool}
    (hp : post s.kernel s.objects p = some r) :
    Posts s.kernel r.1 r.2.2 ∧ Keeps s.objects r.2.1 := by
  have hall := Wakes.ipcListResumeAll h.ok.waits
  have hboth : ∀ x : Side → WaitList ι, Wakes s.kernel
      ((s.kernel.ipcListResumeAll (x .receiver)).ipcListResumeAll (x .sender)) := by
    intro x
    have hok : Callers.Ok waitsOn
        { s.toCallers with kernel := s.kernel.ipcListResumeAll (x .receiver) } :=
      ipcListResumeAll_rule (P := fun k => Callers.Ok waitsOn { s.toCallers with kernel := k })
        (fun k t rest hk hw => hk.fail (hk.head hw).1) h.ok
    exact (hall _).trans (.ipcListResumeAll hok.waits _)
  cases p with
  | semRelease x =>
    cases hp
    obtain ⟨hposts, hflag⟩ := Sem.rtSemRelease_posts s.kernel (s.objects.sem x) (.sem x)
    exact ⟨hposts, setSem_keeps h.mutex hflag⟩
  | semReset x value =>
    cases hp
    exact ⟨.wake (hall _), setSem_keeps h.mutex rfl⟩
  | mbSend x value =>
    obtain ⟨⟨k, mb, ending⟩, hr, rfl⟩ := map_eq_some_iff.mp hp
    obtain ⟨hposts, hflag⟩ := Mailbox.rtMbSendWait_zero hr
    exact ⟨hposts, setMailbox_keeps h.mutex hflag⟩
  | mbUrgent x value =>
    cases hp
    obtain ⟨hposts, hflag⟩ := Mailbox.rtMbUrgent_posts s.kernel (s.objects.mailbox x) (.mailbox x)
      value
    exact ⟨hposts, setMailbox_keeps h.mutex hflag⟩
  | mbRecv x =>
    obtain ⟨⟨k, mb, ending, value⟩, hr, rfl⟩ := map_eq_some_iff.mp hp
    obtain ⟨hposts, hflag⟩ := Mailbox.rtMbRecv_zero hr
    exact ⟨hposts, setMailbox_keeps h.mutex hflag⟩
  | mbReset x =>
    cases hp
    exact ⟨.wake (hboth (.mailbox x)), setMailbox_keeps h.mutex rfl⟩
  | mqReset x =>
    obtain ⟨⟨k, mq⟩, hr, rfl⟩ := map_eq_some_iff.mp hp
    obtain ⟨mq', hfree, heq⟩ := map_eq_some_iff.mp hr
    cases heq
    have hflag := MessageQueue.freeAll_flag hfree
    exact ⟨.wake (hboth (.queue x)), setQueue_keeps h.mutex hflag⟩
  | eventSend x set =>
    cases hp
    obtain ⟨hposts, hflag, hinfo⟩ := Event.rtEventSend_posts (s.objects.event x)
      (fun t ht => h.waiting ht) set
    exact ⟨hposts, setEvent_keeps h.mutex hflag hinfo⟩
  | eventReset x =>
    cases hp
    exact ⟨.wake (hall _), setEvent_keeps h.mutex rfl fun _ h => h⟩

end Sys

end Objects

end RtKernel
