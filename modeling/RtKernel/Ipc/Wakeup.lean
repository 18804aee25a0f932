import RtKernel.Core.Count
import RtKernel.Core.Run
import RtKernel.Ipc.Calls

/-!
# Threads that have been woken

A thread that is resumed from a suspend list does not own what it has been
resumed for: it goes on with its call and looks again, and another thread may
have been faster. Nothing is lost as long as there is a resumed thread for each
item that is available while others wait.
-/

namespace RtKernel

open Kernel

/-- How a locked part of a call ends: it returns, it returns `RT_EOK` after `rt_schedule`, or it
leaves a suspended thread. -/
inductive Ending
  | returns (err : RtErr)
  | schedules
  | waits
  deriving DecidableEq

/-- The suspend lists of a mailbox or a message queue: `parent.suspend_thread` and
`suspend_sender_thread`. -/
inductive Side
  | receiver
  | sender
  deriving DecidableEq

/-- Whom a thread resumes that has got on. -/
def Side.other : Side → Side
  | .receiver => .sender
  | .sender => .receiver

theorem Side.eq_or (x y : Side) : y = x ∨ y = x.other := by
  cases x <;> cases y <;> decide

theorem Side.other_ne (x : Side) : x.other ≠ x := by
  cases x <;> decide

namespace Kernel

variable {τ ω : Type*} [DecidableEq τ] [DecidableEq ω]

/-- Resume the first thread of a list that is not empty, and return. -/
def resumeFirst (k : Kernel τ ω) (x : ω) : Kernel τ ω × Ending :=
  match k.ipcListResume x with
  | some k => (k, .schedules)
  | none => (k, .returns .eok)

section

variable {k : Kernel τ ω} {on : τ → Option ω} (h : k.Waits on)
include h

omit [DecidableEq ω] in
theorem resumeFirst_cases (x : ω) :
    (∃ t rest, k.wait x = t :: rest ∧ k.resumeFirst x = (k.resume t, .schedules)) ∨
      k.wait x = [] ∧ k.resumeFirst x = (k, .returns .eok) := by
  unfold resumeFirst
  cases hk : k.ipcListResume x with
  | some k' =>
    obtain ⟨t, rest, hw, rfl⟩ := h.ipcListResume hk
    exact .inl ⟨t, rest, hw, rfl⟩
  | none =>
    refine .inr ⟨?_, rfl⟩
    unfold ipcListResume at hk
    cases hw : k.wait x with
    | nil => rfl
    | cons t rest =>
      rw [hw] at hk
      cases hk

omit [DecidableEq ω] in
theorem resumeFirst_current (x : ω) : (k.resumeFirst x).1.current = k.current := by
  rcases resumeFirst_cases h x with ⟨t, rest, -, heq⟩ | ⟨-, heq⟩
  · rw [heq]
    exact resume_current
  · rw [heq]

end

end Kernel

/-- What is left of a timeout: the ticks `left` when it is finite. -/
def remaining (timeout : Int) (left : Nat) : Int := if 0 < timeout then left else timeout

namespace Callers

variable {τ ω κ : Type*} [DecidableEq τ] [DecidableEq ω] {waitsOn : κ → Option ω}

/-- The thread has been resumed from the list `x` and has not gone on with its call yet. -/
def Woken (waitsOn : κ → Option ω) (s : Callers τ ω κ) (x : ω) (t : τ) : Prop :=
  s.on waitsOn t = some x ∧ (s.kernel.thread t).stat ≠ .suspend ∧ (s.kernel.thread t).error = .eok

instance (s : Callers τ ω κ) (x : ω) : DecidablePred (s.Woken waitsOn x) := fun _ =>
  inferInstanceAs (Decidable (_ ∧ _))

variable {s : Callers τ ω κ} {k : Kernel τ ω}

section

section

omit [DecidableEq ω]

theorem Ok.rtThreadResume (h : s.Ok waitsOn) (t : τ) :
    Ok waitsOn { s with kernel := s.kernel.rtThreadResume t } := by
  unfold Kernel.rtThreadResume
  split_ifs with hs
  · exact h.resume hs
  · exact h

theorem Ok.resumeFirst (h : s.Ok waitsOn) (x : ω) :
    Ok waitsOn { s with kernel := (s.kernel.resumeFirst x).1 } := by
  rcases resumeFirst_cases h.waits x with ⟨t, rest, hw, heq⟩ | ⟨-, heq⟩
  · rw [heq]
    exact h.resume (h.head hw).1
  · rw [heq]
    exact h

variable {t : τ}

theorem Ok.fail (h : s.Ok waitsOn) (ht : (s.kernel.thread t).stat = .suspend) :
    Ok waitsOn { s with kernel := s.kernel.fail t } := by
  obtain ⟨started, hinv⟩ := h.inv
  have herror := hinv.touch (t := t) (f := fun x => { x with error := .error }) rfl rfl rfl
  exact ⟨⟨started, herror.rtThreadResume t⟩, h.waits.fail ht⟩

theorem Ok.rtThreadSleep (h : s.Ok waitsOn) (hfree : s.Free) :
    Ok waitsOn { s with kernel := s.kernel.rtThreadSleep } := by
  obtain ⟨started, hinv⟩ := h.inv
  exact ⟨⟨started, hinv.rtThreadSleep⟩, h.waits.rtThreadSleep hfree.1 (hfree.on_eq waitsOn)⟩

theorem Ok.setError (h : s.Ok waitsOn) (hrun : s.Running) (err : RtErr) :
    Ok waitsOn { s with kernel := s.kernel.setError err } :=
  h.touch hrun (fun _ => rfl) (fun _ => rfl) fun _ => rfl

end

end

variable [Fintype τ]

/-- The number of threads that have been resumed from `x` and have not gone on yet. -/
def woken (waitsOn : κ → Option ω) (s : Callers τ ω κ) (x : ω) : Nat := count (s.Woken waitsOn x)

omit [DecidableEq τ] in
theorem woken_congr (h : ∀ t, s.on waitsOn t ≠ none →
    ((k.thread t).stat = .suspend ↔ (s.kernel.thread t).stat = .suspend) ∧
      (k.thread t).error = (s.kernel.thread t).error) (x : ω) :
    woken waitsOn { s with kernel := k } x = s.woken waitsOn x := by
  apply count_congr
  intro t
  change s.on waitsOn t = some x ∧ _ ↔ _
  refine and_congr_right fun hon => ?_
  obtain ⟨hs, he⟩ := h t (by rw [hon]; nofun)
  simp only [ne_eq, hs, he]

omit [DecidableEq τ] in
theorem woken_calm (h : s.kernel.Calm k) (x : ω) :
    woken waitsOn { s with kernel := k } x = s.woken waitsOn x :=
  woken_congr (fun t _ => ⟨h.suspended t, h.error t⟩) x

/-- A suspended thread that gets an error is not woken. -/
theorem woken_error (hself : (k.thread t).error ≠ .eok)
    (hs : (s.kernel.thread t).stat = .suspend) (hother : ∀ y ≠ t, k.thread y = s.kernel.thread y)
    (x : ω) : woken waitsOn { s with kernel := k } x = s.woken waitsOn x := by
  apply count_congr
  intro y
  by_cases hy : y = t
  · subst hy
    exact iff_of_false (fun hc => hself hc.2.2) fun hc => hc.2.1 hs
  · unfold Woken
    simp only [hother y hy]
    rfl

theorem woken_timeout (hk : s.kernel.threadTimeout t = some k) (x : ω) :
    woken waitsOn { s with kernel := k } x = s.woken waitsOn x := by
  obtain ⟨hs, -, -, hself, hother⟩ := threadTimeout_spec hk
  refine woken_error ?_ hs hother x
  rw [hself]
  nofun

/-- A thread that is resumed from a list is woken. -/
theorem woken_resume (h : s.Ok waitsOn) (hs : (s.kernel.thread t).stat = .suspend) (x : ω) :
    woken waitsOn { s with kernel := s.kernel.resume t } x =
      s.woken waitsOn x + if s.on waitsOn t = some x then 1 else 0 := by
  have hchange := count_change (p := s.Woken waitsOn x)
    (q := Woken waitsOn { s with kernel := s.kernel.resume t } x) t fun y hy => by
      unfold Woken
      simp only [resume_of_ne hy]
      rfl
  have hbefore : ¬ s.Woken waitsOn x t := fun hc => hc.2.1 hs
  have hafter : Woken waitsOn { s with kernel := s.kernel.resume t } x t ↔
      s.on waitsOn t = some x := by
    refine ⟨And.left, fun hon => ⟨hon, ?_, ?_⟩⟩
    · simp only [resume_self]
      split_ifs <;> nofun
    · simp only [resume_self]
      exact h.waits.error t hs (by rw [hon]; nofun)
  simp only [hbefore, hafter, if_false, Nat.add_zero] at hchange
  exact hchange

variable {c : Option κ}

/-- The current thread goes on, to a part of a call where it does not wait. -/
theorem woken_enter (s : Callers τ ω κ) (hc : c.bind waitsOn = none) (x : ω) :
    (s.enter c).woken waitsOn x + (if s.Woken waitsOn x s.kernel.current then 1 else 0) =
      s.woken waitsOn x := by
  have hchange := count_change (p := s.Woken waitsOn x) (q := (s.enter c).Woken waitsOn x)
    s.kernel.current fun y hy => by
      unfold Woken on
      rw [enter_call_of_ne _ _ hy, enter_kernel]
  have hafter : ¬ (s.enter c).Woken waitsOn x s.kernel.current := by
    rintro ⟨hon, -⟩
    unfold on at hon
    rw [enter_call_self, hc] at hon
    cases hon
  simp only [hafter, if_false, Nat.add_zero] at hchange
  exact hchange

theorem woken_block (waitsOn : κ → Option ω) (hrun : s.Running) (x : ω) (flag : IpcFlag) (timed : Bool)
    (c : Option κ) (y : ω) :
    (Callers.enter { s with kernel := s.kernel.block x flag timed } c).woken waitsOn y +
        (if s.Woken waitsOn y s.kernel.current then 1 else 0) =
      s.woken waitsOn y := by
  obtain ⟨hcur, hself, hother, -⟩ := block_spec x flag timed hrun
  have hchange := count_change (p := s.Woken waitsOn y)
    (q := (Callers.enter { s with kernel := s.kernel.block x flag timed } c).Woken waitsOn y)
    s.kernel.current fun z hz => by
      unfold Woken on
      rw [enter_call_of_ne _ _ (by simpa only [hcur] using hz), enter_kernel]
      simp only [hother z hz]
  have hafter : ¬ (Callers.enter { s with kernel := s.kernel.block x flag timed } c).Woken
      waitsOn y s.kernel.current := by
    rintro ⟨-, hs, -⟩
    rw [enter_kernel, hself] at hs
    exact hs rfl
  simp only [hafter, if_false, Nat.add_zero] at hchange
  exact hchange

/-- While threads wait on `x`, there are as many woken ones as there are items. -/
def Covered (waitsOn : κ → Option ω) (s : Callers τ ω κ) (x : ω) (items : Nat) : Prop :=
  s.kernel.wait x ≠ [] → items ≤ s.woken waitsOn x

namespace Covered

variable {x : ω} {items : Nat}

section

omit [DecidableEq τ]

theorem le (h : s.Covered waitsOn x items) {fewer : Nat} (hle : fewer ≤ items) :
    s.Covered waitsOn x fewer := fun hne => hle.trans (h hne)

theorem zero : s.Covered waitsOn x 0 := fun _ => Nat.zero_le _

theorem empty (h : s.kernel.wait x = []) : s.Covered waitsOn x items := fun hne => absurd h hne

/-- Nobody starts to wait, and nobody who has been woken goes on. -/
theorem mono (h : s.Covered waitsOn x items) {s' : Callers τ ω κ}
    (hwait : s.kernel.wait x = [] → s'.kernel.wait x = [])
    (hwoken : s.woken waitsOn x ≤ s'.woken waitsOn x) : s'.Covered waitsOn x items :=
  fun hne => (h fun he => hne (hwait he)).trans hwoken

theorem calm (h : s.Covered waitsOn x items) (hk : s.kernel.Calm k) :
    Covered waitsOn { s with kernel := k } x items := by
  refine h.mono ?_ (woken_calm hk x).ge
  intro he
  exact (congrFun hk.wait x).trans he

end

section

variable (h : s.Covered waitsOn x items)
include h

theorem timeout (hk : s.kernel.threadTimeout t = some k) :
    Covered waitsOn { s with kernel := k } x items := by
  refine h.mono ?_ (woken_timeout hk x).ge
  intro he
  simp only [(threadTimeout_spec hk).2.2.1, he, rtListRemove_nil]

theorem resume (hok : s.Ok waitsOn) (hs : (s.kernel.thread t).stat = .suspend) :
    Covered waitsOn { s with kernel := s.kernel.resume t } x items := by
  refine h.mono ?_ ?_
  · intro he
    simp only [resume_wait, he, rtListRemove_nil]
  · rw [woken_resume hok hs]
    exact Nat.le_add_right _ _

theorem rtThreadResume (hok : s.Ok waitsOn) (t : τ) :
    Covered waitsOn { s with kernel := s.kernel.rtThreadResume t } x items := by
  unfold Kernel.rtThreadResume
  split_ifs with hs
  · exact h.resume hok hs
  · exact h

theorem rtThreadSleep (hfree : s.Free) :
    Covered waitsOn { s with kernel := s.kernel.rtThreadSleep } x items := by
  obtain ⟨-, hwait, -, hother⟩ := rtThreadSleep_spec hfree.1
  have hnot := hfree.on_eq waitsOn
  refine h.mono ?_ (woken_congr ?_ x).ge
  · intro he
    simp only [hwait, he, rtListRemove_nil]
  · intro t hon
    have ht : t ≠ s.kernel.current := by
      rintro rfl
      exact hon hnot
    rw [hother t ht]
    exact ⟨Iff.rfl, rfl⟩

/-- One more item, and the first thread that waits is resumed for it. -/
theorem resumeFirst (hok : s.Ok waitsOn) :
    Covered waitsOn { s with kernel := (s.kernel.resumeFirst x).1 } x (items + 1) := by
  rcases resumeFirst_cases hok.waits x with ⟨t, rest, hw, heq⟩ | ⟨hw, heq⟩
  · obtain ⟨hs, hon, -⟩ := hok.waits.head hw
    intro _
    have hitems := h (by rw [hw]; nofun)
    rw [heq, woken_resume hok hs, if_pos hon]
    omega
  · rw [heq]
    exact empty hw

theorem resumeFirst_other (hok : s.Ok waitsOn) (y : ω) :
    Covered waitsOn { s with kernel := (s.kernel.resumeFirst y).1 } x items := by
  rcases resumeFirst_cases hok.waits y with ⟨t, rest, hw, heq⟩ | ⟨-, heq⟩
  · rw [heq]
    exact h.resume hok (hok.head hw).1
  · rw [heq]
    exact h

/-- The current thread, which has not been woken from `x`, goes on. -/
theorem enter (hon : s.on waitsOn s.kernel.current ≠ some x)
    (hc : c.bind waitsOn = none) : (s.enter c).Covered waitsOn x items := by
  refine h.mono id ?_
  have hchange := woken_enter s hc x
  rw [if_neg fun hw => hon hw.1] at hchange
  exact hchange.ge

theorem enter_take (hc : c.bind waitsOn = none) : (s.enter c).Covered waitsOn x (items - 1) := by
  intro hne
  have hitems := h hne
  have hchange := woken_enter s hc x
  split_ifs at hchange
  · omega
  · omega

/-- The current thread, which has not been woken from `x`, is suspended on another list. -/
theorem block (hrun : s.Running)
    (hon : s.on waitsOn s.kernel.current ≠ some x) {y : ω} (hy : x ≠ y) (flag : IpcFlag)
    (timed : Bool) (c : Option κ) :
    (Callers.enter { s with kernel := s.kernel.block y flag timed } c).Covered waitsOn x items := by
  obtain ⟨-, -, -, hwait, -⟩ := block_spec y flag timed hrun
  refine h.mono ?_ ?_
  · intro he
    rw [enter_kernel, hwait x hy, he]
    rfl
  · have hchange := woken_block waitsOn hrun y flag timed c x
    rw [if_neg fun hw => hon hw.1] at hchange
    exact hchange.ge

end

end Covered

end Callers

namespace Callers

variable {τ κ : Type*} [DecidableEq τ] [Fintype τ] {waitsOn : κ → Option Side}

/-- The messages are covered, and so is the free room. -/
structure Served (waitsOn : κ → Option Side) (s : Callers τ Side κ) (items : Side → Nat) : Prop where
  ok : s.Ok waitsOn
  covered : ∀ x, s.Covered waitsOn x (items x)

namespace Served

variable {s : Callers τ Side κ} {items items' : Side → Nat} {x : Side}

omit [DecidableEq τ] in
/-- No item is available for a list with waiting threads, once all that were woken have gone on. -/
theorem none_left (h : s.Served waitsOn items) (hwoken : ∀ t, ¬ s.Woken waitsOn x t)
    (hwait : s.kernel.wait x ≠ []) : items x = 0 := by
  have hle := h.covered x hwait
  unfold woken at hle
  rw [count_eq_zero hwoken] at hle
  omega

omit [DecidableEq τ] in
theorem le (h : s.Served waitsOn items) (hle : ∀ x, items' x ≤ items x) : s.Served waitsOn items' :=
  ⟨h.ok, fun x => (h.covered x).le (hle x)⟩

/-- What leaves both lists empty serves any number of items. -/
theorem ipcListResumeAll (h : s.Ok waitsOn) (items : Side → Nat) : Served waitsOn
      { s with kernel := (s.kernel.ipcListResumeAll .receiver).ipcListResumeAll .sender } items := by
  have hturn : ∀ x k t rest, Ok waitsOn { s with kernel := k } → k.wait x = t :: rest →
      Ok waitsOn { s with kernel := k.fail t } :=
    fun x k t rest hok hw => hok.fail (hok.head hw).1
  have hreceiver := ipcListResumeAll_rule (hturn .receiver) h
  have hempty := h.waits.ipcListResumeAll .receiver
  have hsender := ipcListResumeAll_rule (w := Side.sender)
    (P := fun k => Ok waitsOn { s with kernel := k } ∧ k.wait .receiver = [])
    (fun k t rest hk hw => by
      refine ⟨hturn .sender k t rest hk.1 hw, ?_⟩
      simp only [(fail_spec (hk.1.head hw).1).2.1, hk.2, rtListRemove_nil]) ⟨hreceiver, hempty⟩
  refine ⟨hsender.1, ?_⟩
  intro x
  apply Covered.empty
  cases x with
  | receiver => exact hsender.2
  | sender => exact hreceiver.waits.ipcListResumeAll .sender

section

variable (h : s.Served waitsOn items) {k : Kernel τ Side}
include h

/-- The current thread gets on with something else than waiting. -/
theorem enter (hrun : s.Running)
    (hon : s.on waitsOn s.kernel.current = none) (hc : c.bind waitsOn = none) :
    (s.enter c).Served waitsOn items := by
  refine ⟨h.ok.enter hrun c, fun x => (h.covered x).enter ?_ hc⟩
  rw [hon]
  nofun

/-- The current thread leaves its call with an error from its suspension. -/
theorem leave (hrun : s.Running) (herror : (s.kernel.thread s.kernel.current).error ≠ .eok) :
    (s.enter none).Served waitsOn items := by
  refine ⟨h.ok.enter hrun none, fun x => (h.covered x).mono id ?_⟩
  have hnone : Option.bind none waitsOn = none := rfl
  have hchange := woken_enter s hnone x
  rw [if_neg fun hw => herror hw.2.2] at hchange
  exact hchange.ge

/-- The current thread, maybe woken from `x`, takes an item of `x`. -/
theorem take (hrun : s.Running)
    (hon : s.on waitsOn s.kernel.current ≠ some x.other) (hc : c.bind waitsOn = none)
    (hx : items' x = items x - 1) (ho : items' x.other = items x.other) :
    (s.enter c).Served waitsOn items' := by
  refine ⟨h.ok.enter hrun c, ?_⟩
  intro y
  rcases x.eq_or y with rfl | rfl
  · rw [hx]
    exact (h.covered y).enter_take hc
  · rw [ho]
    exact (h.covered _).enter hon hc

/-- There is one more item of `x`, and the first thread that waits for it is resumed. -/
theorem give (hx : items' x = items x + 1) (ho : items' x.other = items x.other) :
    Served waitsOn { s with kernel := (s.kernel.resumeFirst x).1 } items' := by
  refine ⟨h.ok.resumeFirst x, ?_⟩
  intro y
  rcases x.eq_or y with rfl | rfl
  · rw [hx]
    exact (h.covered y).resumeFirst h.ok
  · rw [ho]
    exact (h.covered _).resumeFirst_other h.ok x

/-- The current thread takes an item of `x`, which makes one for the other list. -/
theorem pass (hrun : s.Running)
    (hon : s.on waitsOn s.kernel.current ≠ some x.other) (hx : items' x = items x - 1)
    (ho : items' x.other = items x.other + 1) :
    (Callers.enter { s with kernel := (s.kernel.resumeFirst x.other).1 } none).Served waitsOn
      items' := by
  have htake : (s.enter none).Served waitsOn (Function.update items x (items x - 1)) :=
    h.take hrun hon rfl (Function.update_self ..) (Function.update_of_ne x.other_ne ..)
  have hgive : Served waitsOn { s.enter none with
      kernel := ((s.enter none).kernel.resumeFirst x.other).1 } items' := htake.give ?_ ?_
  · unfold Callers.enter at hgive ⊢
    simp only [resumeFirst_current h.ok.waits]
    exact hgive
  · rw [ho, Function.update_of_ne x.other_ne]
  · have hother : x.other.other = x := by
      cases x <;> rfl
    rw [hother, hx, Function.update_self]

/-- The current thread, maybe woken from `x`, finds no item of `x` and does not wait. -/
theorem refuse (hrun : s.Running)
    (hon : s.on waitsOn s.kernel.current ≠ some x.other) (hx : items x = 0) (err : RtErr) :
    (Callers.enter { s with kernel := s.kernel.setError err } none).Served waitsOn items := by
  have hleave : (s.enter none).Served waitsOn items := h.take hrun hon rfl (by omega) rfl
  have hrun' : (s.enter none).Running := hrun
  refine ⟨hleave.ok.setError hrun' err, fun y => (hleave.covered y).mono id ?_⟩
  refine (woken_congr ?_ y).ge
  intro t hne
  have ht : t ≠ s.kernel.current := by
    rintro rfl
    unfold on at hne
    rw [enter_call_self] at hne
    exact hne rfl
  unfold Kernel.setError
  rw [setThread_of_ne ht]
  exact ⟨Iff.rfl, rfl⟩

/-- The current thread, maybe woken from `x`, finds no item of `x` and waits for one. -/
theorem wait (hrun : s.Running)
    (hon : s.on waitsOn s.kernel.current ≠ some x.other) (hx : items x = 0) {c : κ}
    (hc : waitsOn c = some x) (flag : IpcFlag) (timed : Bool) :
    (Callers.enter { s with kernel := s.kernel.block x flag timed } (some c)).Served waitsOn
      items := by
  refine ⟨h.ok.block hrun hc flag timed, ?_⟩
  intro y
  rcases x.eq_or y with rfl | rfl
  · rw [hx]
    exact .zero
  · exact (h.covered _).block hrun hon x.other_ne flag timed _

theorem timeout
    (hk : s.kernel.threadTimeout t = some k) : Served waitsOn { s with kernel := k } items :=
  ⟨h.ok.timeout hk, fun x => (h.covered x).timeout hk⟩

theorem background {b : Background τ}
    (hk : s.kernel.background b = some k) : Served waitsOn { s with kernel := k } items := by
  obtain ⟨hcalm, hok⟩ := h.ok.background hk
  exact ⟨hok, fun x => (h.covered x).calm hcalm⟩

theorem rtThreadResume (t : τ) :
    Served waitsOn { s with kernel := s.kernel.rtThreadResume t } items :=
  ⟨h.ok.rtThreadResume t, fun x => (h.covered x).rtThreadResume h.ok t⟩

theorem rtThreadSleep (hfree : s.Free) :
    Served waitsOn { s with kernel := s.kernel.rtThreadSleep } items :=
  ⟨h.ok.rtThreadSleep hfree, fun x => (h.covered x).rtThreadSleep hfree⟩

end

end Served

end Callers

end RtKernel
