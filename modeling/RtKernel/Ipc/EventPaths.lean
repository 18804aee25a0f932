import RtKernel.Ipc.Event

/-!
# The two ways of receiving an event

A thread that finds its bits set takes them at once; one that does not waits, and
the send that satisfies it takes them on its behalf. The received bits and the bits
to clear are computed in different functions, from what the caller asks for and
from what the thread has filled in.
-/

open List Option

namespace RtKernel.Event.Sys

open Kernel Function

variable {τ : Type*} [DecidableEq τ] {option : BitVec 8}

/-- Nobody else uses the event meanwhile, or ends the wait of `t`. -/
def Quiet (t : τ) : Act τ → Prop
  | .ret | .sleep | .background _ => True
  | .resume x | .timeout x => x ≠ t
  | .send _ | .recv _ _ _ | .reset => False

/-- The current thread does it in a call of its own. -/
def own : Act τ → Bool
  | .ret | .sleep | .recv _ _ _ => true
  | _ => false

/-- Other steps than those of the thread `t`. -/
def Others (t : τ) (s : Sys τ) (a : Act τ) : Prop := own a = true → s.kernel.current ≠ t

/-- A run of quiet steps. -/
def Quietly (t : τ) : Sys τ → Sys τ → Prop :=
  Relation.ReflTransGen fun s s' => ∃ a, Quiet t a ∧ Step s a s'

/-- A run in which the thread `t` does not do anything. -/
def Elsewhere (t : τ) : Sys τ → Sys τ → Prop :=
  Relation.ReflTransGen fun s s' => ∃ a, Others t s a ∧ Step s a s'

/-- The thread has received `value`: it waits no longer, for a call that succeeds. -/
structure Received (t : τ) (value : BitVec 32) (s : Sys τ) : Prop where
  stat : (s.kernel.thread t).stat ≠ .suspend
  error : (s.kernel.thread t).error = .eok
  value : (s.info t).eventSet = value

/-- The thread waits alone, for `info`. -/
structure Waiting (t : τ) (info : EventInfo) (event : RtEvent) (s : Sys τ) : Prop where
  good : s.Good
  wait : s.kernel.wait () = [t]
  info : s.info t = info
  event : s.event = event

/-- Either way the received bits are those of the mask that are set. -/
theorem received_eq {set bits : BitVec 32}
    (h : status { eventSet := set, eventInfo := option } bits = some true) :
    (EventInfo.received { eventSet := set, eventInfo := option } bits).eventSet = bits &&& set := by
  unfold EventInfo.received
  unfold status at h
  split_ifs at h ⊢ with hand
  · rw [BitVec.and_comm]
    exact (of_decide_eq_true (some.inj h)).symm
  · exact BitVec.and_comm _ _

/-- An empty mask is satisfied by any bits or by none. -/
theorem status_zero (bits bits' : BitVec 32) :
    status { eventSet := 0, eventInfo := option } bits =
      status { eventSet := 0, eventInfo := option } bits' := by
  have hzero : ∀ bits : BitVec 32, 0 &&& bits = 0 := fun _ => BitVec.zero_and
  unfold status
  simp only [hzero]

theorem received_eventInfo (info : EventInfo) (bits : BitVec 32) :
    (info.received bits).eventInfo = info.eventInfo := by
  unfold EventInfo.received
  split_ifs <;> rfl

/-- To clear the bits of the mask that are set is to clear those of the mask. -/
theorem and_not_and (bits set : BitVec 32) : bits &&& ~~~(bits &&& set) = bits &&& ~~~set := by
  ext i hi
  simp only [BitVec.getElem_and, BitVec.getElem_not]
  cases bits[i] <;> cases set[i] <;> rfl

/-- What a satisfied thread leaves of the bits when the sender clears them for it. -/
theorem clear_received {event : RtEvent} {set : BitVec 32}
    (h : status { eventSet := set, eventInfo := option } event.set = some true) :
    event.clear (EventInfo.received { eventSet := set, eventInfo := option } event.set) =
      event.clear { eventSet := set, eventInfo := option } := by
  unfold RtEvent.clear
  rw [received_eventInfo, received_eq h, and_not_and]

section

variable {s s' : Sys τ} {t : τ} {info : EventInfo} {event : RtEvent} {value : BitVec 32}

theorem step_good (h : Reachable Initial Step s) : s.Good :=
  h.induct (·.good) (·.step)

section

variable (h : Waiting t info event s)
include h

omit [DecidableEq τ] in
theorem Waiting.suspended : (s.kernel.thread t).stat = .suspend :=
  h.good.ok.waits.onlySuspended () t (h.wait ▸ mem_singleton_self t)

omit [DecidableEq τ] in
theorem Waiting.ne_current (hrun : s.Running) : t ≠ s.kernel.current := by
  rintro rfl
  cases hrun.symm.trans h.suspended

theorem Waiting.step {a : Act τ} (hquiet : Quiet t a)
    (hstep : Step s a s') : Waiting t info event s' := by
  have hgood := h.good.step hstep
  have hkeep : ∀ {x : τ}, x ≠ t → rtListRemove [t] x = [t] := by
    intro x hx
    exact rtListRemove_of_notMem fun hmem => hx (mem_singleton.mp hmem)
  cases a with
  | send | recv | reset => exact hquiet.elim
  | ret =>
    simp only [Step, exec] at hstep
    split_ifs at hstep
    obtain ⟨c, hc, rfl⟩ := map_eq_some_iff.mp hstep
    exact ⟨hgood, h.wait, h.info, h.event⟩
  | sleep =>
    rw [Step, exec] at hstep
    split_ifs at hstep with hfree
    cases hstep
    refine ⟨hgood, ?_, h.info, h.event⟩
    simp only [(rtThreadSleep_spec hfree.1).2.1, h.wait]
    exact hkeep (h.ne_current hfree.1).symm
  | background b =>
    obtain ⟨c, hc, rfl⟩ := map_eq_some_iff.mp hstep
    obtain ⟨k, hk, rfl⟩ := Callers.background_cases hc
    obtain ⟨hcalm, -⟩ := h.good.ok.background hk
    exact ⟨hgood, hcalm.wait ▸ h.wait, h.info, h.event⟩
  | resume x =>
    cases hstep
    refine ⟨hgood, ?_, h.info, h.event⟩
    simp only [rtThreadResume]
    split_ifs
    · simp only [resume_wait, h.wait]
      exact hkeep hquiet
    · exact h.wait
  | timeout x =>
    obtain ⟨c, hc, rfl⟩ := map_eq_some_iff.mp hstep
    obtain ⟨k, hk, rfl⟩ := Callers.timeout_cases hc
    refine ⟨hgood, ?_, h.info, h.event⟩
    simp only [(threadTimeout_spec hk).2.2.1, h.wait]
    exact hkeep hquiet

theorem Waiting.quietly (hrun : Quietly t s s') : Waiting t info event s' := by
  induction hrun with
  | refl => exact h
  | tail _ hlast ih =>
    obtain ⟨a, hquiet, hstep⟩ := hlast
    exact ih.step hquiet hstep

end

variable {option : BitVec 8} {set m : BitVec 32} {set : BitVec 32} {timeout : Int}

theorem Waiting.send
    (h : Waiting t { eventSet := set, eventInfo := option } event s) (hm : m ≠ 0)
    (hmet : status { eventSet := set, eventInfo := option } (event.set ||| m) = some true) :
    ∃ s', Step s (.send m) s' ∧ s'.Good ∧ Received t ((event.set ||| m) &&& set) s' ∧
      s'.event = RtEvent.clear { event with set := event.set ||| m }
        { eventSet := set, eventInfo := option } := by
  have hsend : rtEventSend s.kernel s.event s.info () m =
      (s.kernel.rtThreadResume t,
        RtEvent.clear { event with set := event.set ||| m }
          { eventSet := set, eventInfo := option },
        update s.info t
          (EventInfo.received { eventSet := set, eventInfo := option } (event.set ||| m)),
        .schedules) := by
    unfold rtEventSend
    rw [if_neg hm, h.wait, h.event]
    unfold sendWalk
    rw [h.info]
    simp only [hmet]
    rw [@clear_received _ { event with set := event.set ||| m } _ hmet]
    rfl
  have hresume : s.kernel.rtThreadResume t = s.kernel.resume t := if_pos h.suspended
  have herror : (s.kernel.thread t).error = .eok := (h.good.ok.waits.head h.wait).2.2
  refine ⟨s.sent (rtEventSend s.kernel s.event s.info () m), rfl, h.good.send m, ?_, ?_⟩
  · rw [hsend]
    unfold sent
    refine ⟨?_, ?_, ?_⟩
    · dsimp only
      rw [hresume, resume_self]
      dsimp only
      split_ifs <;> decide
    · dsimp only
      rw [hresume, resume_self]
      exact herror
    · dsimp only
      rw [update_self, received_eq hmet]
  · rw [hsend]
    rfl

/-- The call that does not find its bits suspends the thread. -/
theorem block_waiting (h : s.Good) (hfree : s.Free) (hlock : s.kernel.schedulerLockNest = 0)
    (hwait : s.kernel.wait () = []) (hset : set ≠ 0) (ht : timeout ≠ 0)
    (hunmet : status { eventSet := set, eventInfo := option } s.event.set = some false) :
    ∃ s', Step s (.recv set option timeout) s' ∧
      Waiting s.kernel.current { eventSet := set, eventInfo := option } s.event s' := by
  have hrecv : rtEventRecv s.kernel s.event s.info () set option timeout =
      some (s.kernel.block () s.event.flag (0 < timeout), s.event,
        update s.info s.kernel.current { eventSet := set, eventInfo := option },
        .waits) := by
    rw [rtEventRecv, if_neg (not_not.mpr hlock), if_neg hset]
    dsimp only
    rw [hunmet]
    rw [if_neg ht]
  obtain ⟨hcur, -, -, -, hperm⟩ := block_spec () s.event.flag (0 < timeout) hfree.1
  rw [hwait] at hperm
  have hstep : Step s (.recv set option timeout)
      { toCallers := Callers.enter { s.toCallers with
            kernel := s.kernel.block () s.event.flag (0 < timeout) }
          (some { set := set, option := option })
        event := s.event
        info := update s.info s.kernel.current
          { eventSet := set, eventInfo := option } } := by
    simp only [Step, exec, if_pos hfree, hrecv, map_some, if_true]
  refine ⟨_, hstep, h.step hstep, ?_, update_self .., rfl⟩
  exact perm_singleton.mp hperm

theorem send_recv (hfree : s.Free) (hlock : s.kernel.schedulerLockNest = 0)
    (hwait : s.kernel.wait () = []) (timeout : Int) (hset : set ≠ 0) (hm : m ≠ 0)
    (hmet : status { eventSet := set, eventInfo := option } (s.event.set ||| m) = some true) :
    ∃ s₁ s₂, Step s (.send m) s₁ ∧ Step s₁ (.recv set option timeout) s₂ ∧
      Received s.kernel.current ((s.event.set ||| m) &&& set) s₂ ∧
      s₂.event = RtEvent.clear { s.event with set := s.event.set ||| m }
        { eventSet := set, eventInfo := option } := by
  have hsend : Step s (.send m) { s with event.set := s.event.set ||| m } := by
    simp only [Step, exec, rtEventSend, if_neg hm, hwait, sendWalk]
  have hrecv : rtEventRecv s.kernel { s.event with set := s.event.set ||| m } s.info () set option
      timeout = some (s.kernel.setError .eok,
        RtEvent.clear { s.event with set := s.event.set ||| m }
          { eventSet := set, eventInfo := option },
        update s.info s.kernel.current
          { eventSet := (s.event.set ||| m) &&& set, eventInfo := option }, .returns .eok) := by
    rw [rtEventRecv, if_neg (not_not.mpr hlock), if_neg hset]
    dsimp only
    rw [hmet]
  have hstep : Step { s with event.set := s.event.set ||| m } (.recv set option timeout)
      { toCallers := Callers.enter { s.toCallers with kernel := s.kernel.setError .eok } none
        event := RtEvent.clear { s.event with set := s.event.set ||| m }
          { eventSet := set, eventInfo := option }
        info := update s.info s.kernel.current
          { eventSet := (s.event.set ||| m) &&& set, eventInfo := option } } := by
    have hfree' : Callers.Free { s with event.set := s.event.set ||| m }.toCallers := hfree
    simp only [Step, exec, if_pos hfree', hrecv, map_some]
    simp
  have hself : (s.kernel.setError .eok).thread s.kernel.current =
      { s.kernel.thread s.kernel.current with error := .eok } := setThread_self ..
  refine ⟨_, _, hsend, hstep, ⟨?_, ?_, ?_⟩, rfl⟩
  · dsimp only [Callers.enter]
    rw [hself]
    rw [hfree.1]
    decide
  · dsimp only [Callers.enter]
    rw [hself]
  · dsimp only
    rw [update_self]

/-- A walk does not touch a thread that is not on its list. -/
theorem sendWalk_of_notMem {k : Kernel τ Unit} {event : RtEvent} {info : τ → EventInfo}
    {needSchedule : Bool} {list : List τ} (ht : t ∉ list) :
    (sendWalk k event info needSchedule list).1.thread t = k.thread t ∧
      (sendWalk k event info needSchedule list).2.2.1 t = info t := by
  induction list generalizing k event info needSchedule with
  | nil => exact ⟨rfl, rfl⟩
  | cons thread rest ih =>
    obtain ⟨hne, hrest⟩ := not_or.mp fun h => ht (mem_cons.mpr h)
    unfold sendWalk
    cases status (info thread) event.set with
    | none => exact ⟨rfl, rfl⟩
    | some met =>
      cases met with
      | false => exact ih hrest
      | true =>
        obtain ⟨hthread, hinfo⟩ := ih hrest
        refine ⟨hthread.trans ?_, hinfo.trans (update_of_ne hne ..)⟩
        unfold rtThreadResume
        split_ifs
        · exact resume_of_ne hne
        · rfl

omit [DecidableEq τ] in
/-- The thread and what it has received are as before. -/
theorem Received.keep (h : Received t value s) (hthread : s'.kernel.thread t = s.kernel.thread t)
    (hinfo : s'.info t = s.info t) : Received t value s' := by
  refine ⟨?_, ?_, ?_⟩
  · rw [hthread]
    exact h.stat
  · rw [hthread]
    exact h.error
  · rw [hinfo]
    exact h.value

theorem recv_of_ne (hrun : s.Running) (hne : t ≠ s.kernel.current)
    
    {r : Kernel τ Unit × RtEvent × (τ → EventInfo) × Ending}
    (hr : rtEventRecv s.kernel s.event s.info () set option timeout = some r) :
    r.1.thread t = s.kernel.thread t ∧ r.2.2.1 t = s.info t := by
  have herror : ∀ err, (s.kernel.setError err).thread t = s.kernel.thread t :=
    fun err => setThread_of_ne hne
  obtain rfl | ⟨-, rfl⟩ | ⟨-, rfl | rfl⟩ := rtEventRecv_cases hr
  · exact ⟨rfl, rfl⟩
  · exact ⟨herror _, update_of_ne hne ..⟩
  · exact ⟨herror _, rfl⟩
  · obtain ⟨-, -, hother, -⟩ := block_spec () s.event.flag (0 < timeout) hrun
    exact ⟨hother t hne, update_of_ne hne ..⟩

/-- A step of others takes nothing from a thread that has received its bits. -/
theorem Received.step (h : Received t value s) (hgood : s.Good) {a : Act τ} (hothers : Others t s a)
    (hstep : Step s a s') : Received t value s' := by
  have hnot : t ∉ s.kernel.wait () := fun hmem =>
    h.stat (hgood.ok.waits.onlySuspended () t hmem)
  have hresume : ∀ k x, (k : Kernel τ Unit).thread t = s.kernel.thread t →
      (k.rtThreadResume x).thread t = k.thread t := by
    intro k x hk
    unfold rtThreadResume
    split_ifs with hs
    · refine resume_of_ne ?_
      rintro rfl
      exact h.stat (hk ▸ hs)
    · rfl
  cases a with
  | send m =>
    cases hstep
    suffices hkeep : Received t value (s.sent (rtEventSend s.kernel s.event s.info () m)) from hkeep
    refine h.keep ?_ ?_
    · dsimp only [sent]
      rw [rtEventSend]
      split_ifs
      · rfl
      · exact (sendWalk_of_notMem hnot).1
    · dsimp only [sent]
      rw [rtEventSend]
      split_ifs
      · rfl
      · exact (sendWalk_of_notMem hnot).2
  | recv set option timeout =>
    simp only [Step, exec] at hstep
    split_ifs at hstep with hfree
    obtain ⟨r, hr, rfl⟩ := map_eq_some_iff.mp hstep
    obtain ⟨hthread, hinfo⟩ := recv_of_ne hfree.1 (hothers rfl).symm hr
    exact h.keep hthread hinfo
  | ret =>
    simp only [Step, exec] at hstep
    split_ifs at hstep
    obtain ⟨c, hc, rfl⟩ := map_eq_some_iff.mp hstep
    exact h.keep rfl rfl
  | reset =>
    cases hstep
    have hrule := ipcListResumeAll_rule (w := ())
      (P := fun k => Callers.Ok waitsOn { s.toCallers with kernel := k } ∧
        k.thread t = s.kernel.thread t)
      (fun k x rest hk hw => by
        have hsuspended := (hk.1.head hw).1
        refine ⟨hk.1.fail hsuspended, ?_⟩
        have hne : t ≠ x := by
          rintro rfl
          exact h.stat (hk.2 ▸ hsuspended)
        exact ((fail_spec hsuspended).2.2.2 t hne).trans hk.2)
      ⟨hgood.ok, rfl⟩
    exact h.keep hrule.2 rfl
  | timeout x =>
    obtain ⟨c, hc, rfl⟩ := map_eq_some_iff.mp hstep
    obtain ⟨k, hk, rfl⟩ := Callers.timeout_cases hc
    obtain ⟨hsuspended, -, -, -, hother⟩ := threadTimeout_spec hk
    have hne : t ≠ x := by
      rintro rfl
      exact h.stat hsuspended
    exact h.keep (hother t hne) rfl
  | sleep =>
    rw [Step, exec] at hstep
    split_ifs at hstep with hfree
    cases hstep
    exact h.keep ((rtThreadSleep_spec hfree.1).2.2.2 t (hothers rfl).symm) rfl
  | resume x =>
    cases hstep
    exact h.keep (hresume s.kernel x rfl) rfl
  | background b =>
    obtain ⟨c, hc, rfl⟩ := map_eq_some_iff.mp hstep
    obtain ⟨k, hk, rfl⟩ := Callers.background_cases hc
    obtain ⟨hcalm, -⟩ := hgood.ok.background hk
    exact ⟨fun hs => h.stat ((hcalm.suspended t).mp hs), (hcalm.error t).trans h.error, h.value⟩

theorem Received.elsewhere (h : Received t value s) (hgood : s.Good) (hrun : Elsewhere t s s') :
    Received t value s' := by
  suffices hall : s'.Good ∧ Received t value s' from hall.2
  induction hrun with
  | refl => exact ⟨hgood, h⟩
  | tail _ hlast ih =>
    obtain ⟨a, hothers, hstep⟩ := hlast
    exact ⟨ih.1.step hstep, ih.2.step ih.1 hothers hstep⟩

end

/-- A thread receives the same bits, and leaves the same bits set, whether it waits for the send
that satisfies it or asks after it. -/
theorem reachable_agree : ∀ s : Sys τ, Reachable Initial Step s → s.Free →
    s.kernel.schedulerLockNest = 0 → s.kernel.wait () = [] →
    ∀ (set m : BitVec 32) (option : BitVec 8),
    status { eventSet := set, eventInfo := option } s.event.set = some false →
    status { eventSet := set, eventInfo := option } (s.event.set ||| m) = some true →
    ∃ received residual : BitVec 32,
      (∀ timeout, timeout ≠ 0 → ∃ s₁, Step s (.recv set option timeout) s₁ ∧
        ∀ s₂, Quietly s.kernel.current s₁ s₂ → ∃ s₃, Step s₂ (.send m) s₃ ∧
          s₃.event.set = residual ∧ ∀ s₄, Elsewhere s.kernel.current s₃ s₄ →
            Received s.kernel.current received s₄) ∧
      ∀ timeout, ∃ s₁ s₂, Step s (.send m) s₁ ∧ Step s₁ (.recv set option timeout) s₂ ∧
        s₂.event.set = residual ∧ Received s.kernel.current received s₂ := by
  intro s hs hfree hlock hwait set m option hunmet hmet
  have hgood := step_good hs
  have hm : m ≠ 0 := by
    rintro rfl
    have hsame : s.event.set ||| 0 = s.event.set := BitVec.or_zero
    rw [hsame, hunmet] at hmet
    cases hmet
  have hset : set ≠ 0 := by
    rintro rfl
    rw [status_zero _ s.event.set, hunmet] at hmet
    cases hmet
  refine ⟨(s.event.set ||| m) &&& set, (RtEvent.clear { s.event with set := s.event.set ||| m }
    { eventSet := set, eventInfo := option }).set, fun timeout ht => ?_, fun timeout => ?_⟩
  · obtain ⟨s₁, hstep, hwaiting⟩ := block_waiting hgood hfree hlock hwait hset ht hunmet
    refine ⟨s₁, hstep, fun s₂ hquiet => ?_⟩
    obtain ⟨s₃, hsend, hgood', hreceived, hevent⟩ := (hwaiting.quietly hquiet).send hm hmet
    exact ⟨s₃, hsend, congrArg RtEvent.set hevent, fun s₄ => hreceived.elsewhere hgood'⟩
  · obtain ⟨s₁, s₂, hsend, hrecv, hreceived, hevent⟩ :=
      send_recv hfree hlock hwait timeout hset hm hmet
    exact ⟨s₁, s₂, hsend, hrecv, congrArg RtEvent.set hevent, hreceived⟩

/-- Thread `0` waits for any of two bits, to clear them, and one of them is sent with a third. -/
theorem reachable_agree_clear :
    ∃ received residual : BitVec 32,
      (∀ timeout, timeout ≠ 0 → ∃ s₁, Step start (.recv 3 6 timeout) s₁ ∧
        ∀ s₂, Quietly 0 s₁ s₂ → ∃ s₃, Step s₂ (.send 5) s₃ ∧
          s₃.event.set = residual ∧ ∀ s₄, Elsewhere 0 s₃ s₄ → Received 0 received s₄) ∧
      ∀ timeout, ∃ s₁ s₂, Step start (.send 5) s₁ ∧ Step s₁ (.recv 3 6 timeout) s₂ ∧
        s₂.event.set = residual ∧ Received 0 received s₂ := by
  have hfree : start.Free := by decide +kernel
  have hlock : start.kernel.schedulerLockNest = 0 := by decide +kernel
  exact reachable_agree start (.start start_initial) hfree hlock start_initial.wait 3 5 6
    (by decide) (by decide)

end RtKernel.Event.Sys
