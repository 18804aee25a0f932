import RtKernel.Ipc.Wakeup

/-!
# Events

A thread waits until all or any bits of its mask are set. A send walks along the
list, and a waiter with `RT_EVENT_FLAG_CLEAR` that it resumes takes bits away from
those behind it. Bits that are taken away never satisfy anybody.
-/

namespace RtKernel.Event

open Kernel Function List Option

/-- `RT_EVENT_FLAG_AND`. -/
def rtEventFlagAnd : BitVec 8 := 0x01

/-- `RT_EVENT_FLAG_OR`. -/
def rtEventFlagOr : BitVec 8 := 0x02

/-- `RT_EVENT_FLAG_CLEAR`. -/
def rtEventFlagClear : BitVec 8 := 0x04

/-- `struct rt_event`; its suspend list is kept with the threads. -/
structure RtEvent where
  set : BitVec 32
  flag : IpcFlag

/-- The fields of `struct rt_thread` that only events use. -/
structure EventInfo where
  eventSet : BitVec 32
  eventInfo : BitVec 8

/-- Whether the bits `set` of an event satisfy a thread; there is no answer without an option. -/
def status (info : EventInfo) (set : BitVec 32) : Option Bool :=
  if info.eventInfo &&& rtEventFlagAnd ≠ 0 then some (info.eventSet &&& set = info.eventSet)
  else if info.eventInfo &&& rtEventFlagOr ≠ 0 then some (info.eventSet &&& set ≠ 0)
  else none

/-- `event->set &= ~set` with `RT_EVENT_FLAG_CLEAR`. -/
def RtEvent.clear (event : RtEvent) (info : EventInfo) : RtEvent :=
  if info.eventInfo &&& rtEventFlagClear ≠ 0 then
    { event with set := event.set &&& ~~~info.eventSet }
  else event

/-- What a thread that has waited has received: all of its mask, or the bits that are set. -/
def EventInfo.received (info : EventInfo) (set : BitVec 32) : EventInfo :=
  if info.eventInfo &&& rtEventFlagAnd ≠ 0 then info
  else { info with eventSet := info.eventSet &&& set }

variable {τ ω : Type*} [DecidableEq τ] [DecidableEq ω]

/-- The walk of `rt_event_send` along the list. -/
def sendWalk (k : Kernel τ ω) (event : RtEvent) (info : τ → EventInfo) (needSchedule : Bool) :
    List τ → Kernel τ ω × RtEvent × (τ → EventInfo) × Ending
  | [] => (k, event, info, if needSchedule then .schedules else .returns .eok)
  | thread :: rest =>
      match status (info thread) event.set with
      | none => (k, event, info, .returns .einval)
      | some false => sendWalk k event info needSchedule rest
      | some true =>
          let received := (info thread).received event.set
          sendWalk (k.rtThreadResume thread) (event.clear received)
            (update info thread received) true rest

/-- `rt_event_send`, up to its call of `rt_schedule`. -/
def rtEventSend (k : Kernel τ ω) (event : RtEvent) (info : τ → EventInfo) (x : ω)
    (set : BitVec 32) : Kernel τ ω × RtEvent × (τ → EventInfo) × Ending :=
  if set = 0 then (k, event, info, .returns .error)
  else sendWalk k { event with set := event.set ||| set } info false (k.wait x)

/-- `rt_event_recv` to where it returns or is suspended; what it receives is then the `event_set` of
the current thread. -/
def rtEventRecv (k : Kernel τ ω) (event : RtEvent) (info : τ → EventInfo) (x : ω)
    (set : BitVec 32) (option : BitVec 8) (timeout : Int) :
    Option (Kernel τ ω × RtEvent × (τ → EventInfo) × Ending) :=
  if k.schedulerLockNest ≠ 0 then none -- RT_DEBUG_SCHEDULER_AVAILABLE
  else if set = 0 then some (k, event, info, .returns .error)
  else
    let wanted : EventInfo := { eventSet := set, eventInfo := option }
    match status wanted event.set with
    | none => none -- RT_ASSERT(0)
    | some true =>
        let received := { wanted with eventSet := event.set &&& set }
        some (k.setError .eok, event.clear wanted, update info k.current received,
          .returns .eok)
    | some false =>
        if timeout = 0 then
          some (setError (k.setError .eok) .etimeout, event, info, .returns .etimeout)
        else
          some (k.block x event.flag (0 < timeout), event, update info k.current wanted,
            .waits)

variable {set : BitVec 32}

/-- What `rt_event_recv` can do: it refuses an empty mask, receives, gives up or is suspended. -/
theorem rtEventRecv_cases {k : Kernel τ ω} {event : RtEvent} {info : τ → EventInfo} {x : ω}
    {option : BitVec 8} {timeout : Int} {r : Kernel τ ω × RtEvent × (τ → EventInfo) × Ending}
    (h : rtEventRecv k event info x set option timeout = some r) :
    r = (k, event, info, .returns .error) ∨
    status { eventSet := set, eventInfo := option } event.set = some true ∧
      r = (k.setError .eok, event.clear { eventSet := set, eventInfo := option },
        update info k.current { eventSet := event.set &&& set, eventInfo := option },
        .returns .eok) ∨
    status { eventSet := set, eventInfo := option } event.set = some false ∧
      (r = (k.setError .etimeout, event, info, .returns .etimeout) ∨
        r = (k.block x event.flag (0 < timeout), event,
          update info k.current { eventSet := set, eventInfo := option }, .waits)) := by
  unfold rtEventRecv at h
  by_cases hlock : k.schedulerLockNest ≠ 0
  · rw [if_pos hlock] at h
    cases h
  rw [if_neg hlock] at h
  by_cases hzero : set = 0
  · rw [if_pos hzero] at h
    exact .inl (some.inj h).symm
  rw [if_neg hzero] at h
  dsimp only at h
  cases hstatus : status { eventSet := set, eventInfo := option } event.set with
  | none =>
    rw [hstatus] at h
    cases h
  | some met =>
    rw [hstatus] at h
    cases met with
    | true => exact .inr (.inl ⟨rfl, (some.inj h).symm⟩)
    | false =>
      refine .inr (.inr ⟨rfl, ?_⟩)
      split_ifs at h
      · rw [setError_setError] at h
        exact .inl (some.inj h).symm
      · exact .inr (some.inj h).symm

/-- `rt_event_control` with `RT_IPC_CMD_RESET`, up to its call of `rt_schedule`. -/
def rtEventReset (k : Kernel τ ω) (event : RtEvent) (x : ω) : Kernel τ ω × RtEvent :=
  (k.ipcListResumeAll x, { event with set := 0 })

/-- A call of `rt_event_recv` that is suspended or has been. -/
structure Call where
  set : BitVec 32
  option : BitVec 8
  deriving DecidableEq

/-- The list that a call has been suspended on. -/
def waitsOn : Call → Option Unit := fun _ => some ()

/-- What the current thread, an interrupt or the timer does. -/
inductive Act (τ : Type*)
  /-- A thread or an interrupt sends. -/
  | send (set : BitVec 32)
  | recv (set : BitVec 32) (option : BitVec 8) (timeout : Int)
  /-- The current thread returns from its call. -/
  | ret
  | reset
  | timeout (t : τ)
  /-- The current thread waits for something else. -/
  | sleep
  | resume (t : τ)
  | background (b : Background τ)

/-- The threads and an event. -/
structure Sys (τ : Type*) extends Callers τ Unit Call where
  event : RtEvent
  info : τ → EventInfo

namespace Sys

/-- A step; there is none where it cannot happen or an assertion fails. -/
def exec (s : Sys τ) : Act τ → Option (Sys τ)
  | .send set =>
      let (k, event, info, _) := rtEventSend s.kernel s.event s.info () set
      some { s with kernel := k, event := event, info := info }
  | .recv set option timeout =>
      if s.Free then
        (rtEventRecv s.kernel s.event s.info () set option timeout).map
          fun (k, event, info, ending) =>
            let call := if ending = .waits then some { set := set, option := option } else none
            { toCallers := Callers.enter { s.toCallers with kernel := k } call
              event := event, info := info }
      else none
  | .ret =>
      -- the idle thread never waits, so `rt_schedule` comes back only to a thread that runs
      if s.Running then
        (s.call s.kernel.current).map fun _ => { s with toCallers := s.toCallers.enter none }
      else none
  | .reset =>
      let (k, event) := rtEventReset s.kernel s.event ()
      some { s with kernel := k, event := event }
  | .timeout t => (s.toCallers.timeout t).map fun c => { s with toCallers := c }
  | .sleep => if s.Free then some { s with kernel := s.kernel.rtThreadSleep } else none
  | .resume t => some { s with kernel := s.kernel.rtThreadResume t }
  | .background b => (s.toCallers.background b).map fun c => { s with toCallers := c }

def Step (s : Sys τ) (a : Act τ) (s' : Sys τ) : Prop := s.exec a = some s'

/-- The event has been initialised, and no call has been made. -/
structure Initial (s : Sys τ) : Prop where
  inv : ∃ started, s.kernel.Inv started
  wait : s.kernel.wait () = []
  call : ∀ t, s.call t = none

/-- The invariant of a run. -/
structure Good (s : Sys τ) : Prop where
  ok : s.Ok waitsOn
  /-- Those who wait have filled in what they wait for. -/
  call : ∀ t ∈ s.kernel.wait (),
    s.call t = some { set := (s.info t).eventSet, option := (s.info t).eventInfo }
  unmet : ∀ t ∈ s.kernel.wait (), status (s.info t) s.event.set = some false

variable {info : EventInfo}

theorem status_fewer {set set' : BitVec 32} (h : status info set = some false)
    (hset : set' &&& set = set') : status info set' = some false := by
  unfold status at h ⊢
  split_ifs at h ⊢ with hand hor
  · rw [some.injEq, decide_eq_false_iff_not] at h ⊢
    intro hall
    apply h
    calc info.eventSet &&& set
        = info.eventSet &&& set' &&& set := by rw [hall]
      _ = info.eventSet := by rw [BitVec.and_assoc, hset, hall]
  · rw [some.injEq, decide_eq_false_iff_not, not_not] at h ⊢
    calc info.eventSet &&& set'
        = info.eventSet &&& set &&& set' := by rw [BitVec.and_assoc, BitVec.and_comm set, hset]
      _ = 0 := by
        rw [h]
        exact BitVec.zero_and

/-- Whether there is an answer depends on the option only. -/
theorem status_none (h : status info set = none) (set' : BitVec 32) : status info set' = none := by
  unfold status at h ⊢
  split_ifs at h ⊢
  rfl

theorem clear_fewer (event : RtEvent) (info : EventInfo) :
    (event.clear info).set &&& event.set = (event.clear info).set := by
  unfold RtEvent.clear
  split_ifs
  · rw [BitVec.and_assoc, BitVec.and_comm (~~~info.eventSet), ← BitVec.and_assoc, BitVec.and_self]
  · exact BitVec.and_self

section

variable {s s' : Sys τ}

/-- Fewer threads wait, for the same as before, and no bits have been set. -/
structure Shrinks (s s' : Sys τ) : Prop where
  ok : s'.Ok waitsOn
  wait : ∀ t ∈ s'.kernel.wait (), t ∈ s.kernel.wait () ∧ s'.call t = s.call t ∧ s'.info t = s.info t
  set : s'.event.set &&& s.event.set = s'.event.set

section

omit [DecidableEq τ]

theorem Good.shrinks (h : s.Good) (hs : Shrinks s s') : s'.Good := by
  refine ⟨hs.ok, ?_, ?_⟩
  · intro t ht
    obtain ⟨hmem, hcall, hinfo⟩ := hs.wait t ht
    rw [hcall, hinfo]
    exact h.call t hmem
  · intro t ht
    obtain ⟨hmem, -, hinfo⟩ := hs.wait t ht
    rw [hinfo]
    exact status_fewer (h.unmet t hmem) hs.set

theorem Shrinks.refl (h : s.Ok waitsOn) : Shrinks s s :=
  ⟨h, fun _ ht => ⟨ht, rfl, rfl⟩, BitVec.and_self⟩

theorem Shrinks.trans {s'' : Sys τ} (h : Shrinks s s') (h' : Shrinks s' s'') : Shrinks s s'' := by
  refine ⟨h'.ok, ?_, ?_⟩
  · intro t ht
    obtain ⟨hmem', hcall', hinfo'⟩ := h'.wait t ht
    obtain ⟨hmem, hcall, hinfo⟩ := h.wait t hmem'
    exact ⟨hmem, hcall'.trans hcall, hinfo'.trans hinfo⟩
  · rw [← h'.set, BitVec.and_assoc, h.set]

end

section

variable (h : s.Ok waitsOn)
include h

/-- A thread is resumed that waits or waits for something else. -/
theorem shrinks_rtThreadResume (t : τ) :
    Shrinks s { s with kernel := s.kernel.rtThreadResume t } := by
  refine ⟨h.rtThreadResume t, ?_, BitVec.and_self⟩
  intro x hx
  refine ⟨?_, rfl, rfl⟩
  simp only [rtThreadResume] at hx
  split_ifs at hx with hs
  · rw [resume_wait, mem_rtListRemove] at hx
    exact hx.1
  · exact hx

theorem notMem_rtThreadResume (t : τ) : t ∉ (s.kernel.rtThreadResume t).wait () := by
  intro hmem
  unfold rtThreadResume at hmem
  split_ifs at hmem with hs
  · rw [resume_wait, mem_rtListRemove] at hmem
    exact hmem.2 rfl
  · exact hs (h.waits.onlySuspended () t hmem)

/-- A satisfied thread takes its bits and is resumed. -/
theorem shrinks_turn (t : τ) (info : EventInfo) : Shrinks s { s with
        kernel := s.kernel.rtThreadResume t, event := s.event.clear info
        info := update s.info t info } := by
  have hresume := shrinks_rtThreadResume h t
  refine ⟨hresume.ok, ?_, clear_fewer s.event info⟩
  intro x hx
  have hne : x ≠ t := by
    rintro rfl
    exact notMem_rtThreadResume h x hx
  exact ⟨(hresume.wait x hx).1, rfl, update_of_ne hne ..⟩

end

/-- What a send leaves. -/
def sent (s : Sys τ) (r : Kernel τ Unit × RtEvent × (τ → EventInfo) × Ending) : Sys τ :=
  { s with kernel := r.1, event := r.2.1, info := r.2.2.1 }

/-- Nobody on the part of the list that has been walked along is satisfied any more. -/
theorem sendWalk_spec (h : s.Ok waitsOn) {list : List τ} (hnodup : list.Nodup)
    (hvalid : ∀ t ∈ list, status (s.info t) s.event.set ≠ none) (needSchedule : Bool) :
    Shrinks s (s.sent (sendWalk s.kernel s.event s.info needSchedule list)) ∧
      ∀ t ∈ list, t ∈ (s.sent (sendWalk s.kernel s.event s.info needSchedule list)).kernel.wait () →
        status (s.info t) (s.sent (sendWalk s.kernel s.event s.info needSchedule list)).event.set =
          some false := by
  induction list generalizing s needSchedule with
  | nil => exact ⟨.refl h, nofun⟩
  | cons thread rest ih =>
    obtain ⟨hnot, hrest⟩ := nodup_cons.mp hnodup
    unfold sendWalk
    cases hstatus : status (s.info thread) s.event.set with
    | none => exact absurd hstatus (hvalid thread (.head _))
    | some met =>
      cases met with
      | false =>
        obtain ⟨hs, hwalk⟩ := ih h hrest (fun t ht => hvalid t (.tail _ ht))
          needSchedule
        refine ⟨hs, ?_⟩
        intro t ht hmem
        rcases mem_cons.mp ht with rfl | ht
        · exact status_fewer hstatus hs.set
        · exact hwalk t ht hmem
      | true =>
        have hturn := shrinks_turn h thread ((s.info thread).received s.event.set)
        have hsame : ∀ t ∈ rest, update s.info thread
            ((s.info thread).received s.event.set) t = s.info t := by
          intro t ht
          apply update_of_ne
          rintro rfl
          exact hnot ht
        have hvalid' : ∀ t ∈ rest, status (update s.info thread
            ((s.info thread).received s.event.set) t)
            (s.event.clear ((s.info thread).received s.event.set)).set ≠ none := by
          intro t ht hnone
          rw [hsame t ht] at hnone
          exact hvalid t (.tail _ ht) (status_none hnone _)
        obtain ⟨hs, hwalk⟩ := ih hturn.ok hrest hvalid' true
        refine ⟨hturn.trans hs, ?_⟩
        intro t ht hmem
        rcases mem_cons.mp ht with rfl | ht
        · exact absurd (hs.wait t hmem).1 (notMem_rtThreadResume h t)
        · rw [← hsame t ht]
          exact hwalk t ht hmem

section

variable (h : s.Good)
include h

theorem Good.send (set : BitVec 32) :
    (s.sent (rtEventSend s.kernel s.event s.info () set)).Good := by
  unfold rtEventSend
  by_cases hzero : set = 0
  · rw [if_pos hzero]
    exact h
  · rw [if_neg hzero]
    have hvalid : ∀ t ∈ s.kernel.wait (), status (s.info t) (s.event.set ||| set) ≠ none := by
      intro t ht hnone
      cases (h.unmet t ht).symm.trans (status_none hnone _)
    obtain ⟨hs, hwalk⟩ := sendWalk_spec (s := { s with event.set := s.event.set ||| set }) h.ok
      (h.ok.waits.nodup ()) hvalid false
    refine ⟨hs.ok, ?_, ?_⟩
    · intro t ht
      obtain ⟨hmem, hcall, hinfo⟩ := hs.wait t ht
      have hwaits := h.call t hmem
      rw [← hinfo] at hwaits
      exact hwaits
    · intro t ht
      obtain ⟨hmem, -, hinfo⟩ := hs.wait t ht
      have hunmet := hwalk t hmem ht
      rw [← hinfo] at hunmet
      exact hunmet

section

variable (hrun : s.Running)
include hrun

omit [DecidableEq τ] in
theorem Good.notMem : s.kernel.current ∉ s.kernel.wait () := by
  intro hmem
  cases hrun.symm.trans (h.ok.waits.onlySuspended () _ hmem)

/-- The current thread gets on with another call, and nobody else notices more than that bits have
been taken away. -/
theorem Good.enter (err : RtErr) (c : Option Call)
    {event : RtEvent} (hevent : event.set &&& s.event.set = event.set) (info : EventInfo) :
    Good { toCallers := Callers.enter { s.toCallers with kernel := s.kernel.setError err } c
           event := event, info := update s.info s.kernel.current info } := by
  refine h.shrinks ⟨(h.ok.setError hrun err).enter ?_ c, ?_, hevent⟩
  · unfold Callers.Running setError
    rw [setThread_current, setThread_self]
    exact hrun
  · intro t ht
    have hne : t ≠ s.kernel.current := by
      rintro rfl
      exact h.notMem hrun ht
    exact ⟨ht, update_of_ne hne .., update_of_ne hne ..⟩

/-- The current thread is suspended for what it has not found. -/
theorem Good.block (hstatus : status info s.event.set = some false) (timed : Bool) : Good
      { toCallers := Callers.enter { s.toCallers with kernel := s.kernel.block () s.event.flag timed }
          (some { set := info.eventSet, option := info.eventInfo })
        event := s.event, info := update s.info s.kernel.current info } := by
  obtain ⟨hcur, -, -, -, hperm⟩ := block_spec () s.event.flag timed hrun
  have hwaits : waitsOn { set := info.eventSet, option := info.eventInfo } = some () := rfl
  have hok := h.ok.block hrun hwaits s.event.flag timed
  have hmem : ∀ t ∈ (s.kernel.block () s.event.flag timed).wait (),
      t = s.kernel.current ∨ t ≠ s.kernel.current ∧ t ∈ s.kernel.wait () := by
    intro t ht
    rw [hperm.mem_iff, mem_cons, mem_rtListRemove] at ht
    tauto
  refine ⟨hok, ?_, ?_⟩
  · intro t ht
    simp only [Callers.enter, hcur]
    rcases hmem t ht with rfl | ⟨hne, hwait⟩
    · rw [update_self, update_self]
    · rw [update_of_ne hne, update_of_ne hne]
      exact h.call t hwait
  · intro t ht
    simp only
    rcases hmem t ht with rfl | ⟨hne, hwait⟩
    · rw [update_self]
      exact hstatus
    · rw [update_of_ne hne]
      exact h.unmet t hwait

theorem Good.leave : Good { s with toCallers := s.toCallers.enter none } := by
  refine h.shrinks ⟨h.ok.enter hrun none, ?_, BitVec.and_self⟩
  intro t ht
  have hne : t ≠ s.kernel.current := by
    rintro rfl
    exact h.notMem hrun ht
  exact ⟨ht, update_of_ne hne .., rfl⟩

theorem Good.recv {option : BitVec 8}
    {timeout : Int} {r : Kernel τ Unit × RtEvent × (τ → EventInfo) × Ending}
    (hr : rtEventRecv s.kernel s.event s.info () set option timeout = some r) :
    Good { toCallers := Callers.enter { s.toCallers with kernel := r.1 }
             (if r.2.2.2 = .waits then some { set := set, option := option } else none)
           event := r.2.1, info := r.2.2.1 } := by
  obtain rfl | ⟨-, rfl⟩ | ⟨hstatus, rfl | rfl⟩ := rtEventRecv_cases hr
  · exact h.leave hrun
  · exact h.enter hrun .eok none (clear_fewer _ _) _
  · have henter := h.enter hrun .etimeout none BitVec.and_self (s.info s.kernel.current)
    rw [update_eq_self] at henter
    exact henter
  · exact h.block hrun hstatus _

end

theorem Good.reset : Good { s with
      kernel := (rtEventReset s.kernel s.event ()).1, event := (rtEventReset s.kernel s.event ()).2 } := by
  have hempty := h.ok.waits.ipcListResumeAll ()
  have hok : Callers.Ok waitsOn { s.toCallers with kernel := s.kernel.ipcListResumeAll () } :=
    ipcListResumeAll_rule (P := fun k => Callers.Ok waitsOn { s.toCallers with kernel := k })
      (fun k t rest hk hw => hk.fail (hk.head hw).1) h.ok
  refine ⟨hok, ?_, ?_⟩
  all_goals
    intro t ht
    simp only [rtEventReset, hempty] at ht
    cases ht

theorem Good.step {a : Act τ} (hstep : Step s a s') : s'.Good := by
  cases a with
  | send set =>
    cases hstep
    exact h.send set
  | recv set option timeout =>
    simp only [Step, exec] at hstep
    split_ifs at hstep with hfree
    obtain ⟨r, hr, rfl⟩ := map_eq_some_iff.mp hstep
    exact h.recv hfree.1 hr
  | ret =>
    simp only [Step, exec] at hstep
    split_ifs at hstep with hrun
    obtain ⟨c, hc, rfl⟩ := map_eq_some_iff.mp hstep
    exact h.leave hrun
  | reset =>
    cases hstep
    exact h.reset
  | timeout t =>
    obtain ⟨c, hc, rfl⟩ := map_eq_some_iff.mp hstep
    obtain ⟨k, hk, rfl⟩ := Callers.timeout_cases hc
    refine h.shrinks ⟨h.ok.timeout hk, ?_, BitVec.and_self⟩
    intro x hx
    simp only [(threadTimeout_spec hk).2.2.1, mem_rtListRemove] at hx
    exact ⟨hx.1, rfl, rfl⟩
  | sleep =>
    rw [Step, exec] at hstep
    split_ifs at hstep with hfree
    cases hstep
    refine h.shrinks ⟨h.ok.rtThreadSleep hfree, ?_, BitVec.and_self⟩
    intro x hx
    simp only [(rtThreadSleep_spec hfree.1).2.1, mem_rtListRemove] at hx
    exact ⟨hx.1, rfl, rfl⟩
  | resume t =>
    cases hstep
    exact h.shrinks (shrinks_rtThreadResume h.ok t)
  | background b =>
    obtain ⟨c, hc, rfl⟩ := map_eq_some_iff.mp hstep
    obtain ⟨k, hk, rfl⟩ := Callers.background_cases hc
    obtain ⟨hcalm, hok⟩ := h.ok.background hk
    refine h.shrinks ⟨hok, ?_, BitVec.and_self⟩
    intro x hx
    simp only [hcalm.wait] at hx
    exact ⟨hx, rfl, rfl⟩

end

end

omit [DecidableEq τ] in
theorem Initial.good {s : Sys τ} (h : s.Initial) : s.Good := by
  refine ⟨.start h.inv (fun _ => h.wait) h.call, ?_, ?_⟩
  all_goals
    intro t ht
    rw [h.wait] at ht
    cases ht

/-- In every run nobody who waits with `RT_EVENT_FLAG_AND` finds the whole mask set, and nobody who
waits with `RT_EVENT_FLAG_OR` any bit of it. -/
theorem reachable_unsatisfied {s : Sys τ} (h : Reachable Initial Step s) :
    ∀ t ∈ s.kernel.wait (), ∃ c, s.call t = some c ∧
      (c.option &&& rtEventFlagAnd ≠ 0 ∧ ¬ c.set &&& s.event.set = c.set ∨
        c.option &&& rtEventFlagAnd = 0 ∧ c.option &&& rtEventFlagOr ≠ 0 ∧
          c.set &&& s.event.set = 0) := by
  have hgood : s.Good := h.induct (·.good) (·.step)
  intro t ht
  refine ⟨_, hgood.call t ht, ?_⟩
  have hunmet := hgood.unmet t ht
  unfold status at hunmet
  split_ifs at hunmet with hand hor
  · rw [Option.some.injEq, decide_eq_false_iff_not] at hunmet
    exact .inl ⟨hand, hunmet⟩
  · rw [Option.some.injEq, decide_eq_false_iff_not, not_not] at hunmet
    exact .inr ⟨not_not.mp hand, hor, hunmet⟩

/-- Three threads and an event without bits. -/
def start : Sys (Fin 3) :=
  { kernel := boot (fun t => 10 * t + 10) 0 [1, 2]
    call := fun _ => none
    event := { set := 0, flag := .fifo }
    info := fun _ => { eventSet := 0, eventInfo := 0 } }

theorem start_initial : start.Initial where
  inv := ⟨_, boot_inv (by decide) 0 [1, 2]⟩
  wait := congrFun (boot_wait) _
  call _ := rfl

/-- Of two waiters the second one is satisfied and clears its bit; the first one goes on waiting for
both bits. -/
theorem reachable_unsatisfied_clear : ∃ s : Sys (Fin 3), s.kernel.wait () = [0] ∧
    ∃ c, s.call 0 = some c ∧
      (c.option &&& rtEventFlagAnd ≠ 0 ∧ ¬ c.set &&& s.event.set = c.set ∨
        c.option &&& rtEventFlagAnd = 0 ∧ c.option &&& rtEventFlagOr ≠ 0 ∧
          c.set &&& s.event.set = 0) := by
  have hrun : ∃ s ∈ runAll exec start [.recv 3 1 (-1), .background .schedule, .recv 1 6 (-1),
      .background .schedule, .send 1],
      s.kernel.wait () = [0] := by decide +kernel
  obtain ⟨s, hs, hwait⟩ := Reachable.of_runAll start_initial hrun
  refine ⟨s, hwait, ?_⟩
  apply reachable_unsatisfied hs 0
  rw [hwait]
  exact List.mem_singleton_self 0

end Sys

end RtKernel.Event
