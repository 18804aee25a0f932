import RtKernel.Drivers.AlarmUpdate

/-!
# Every day

In a run without the meetings that go wrong the RTC is armed for the alarm that comes next, so that
an event is raised in the second of each alarm, and the update that handles it is the only one that
finds the alarm in its time.
-/

open List Option

namespace RtKernel.Alarm

open Function

namespace Container

variable {ι : Type*} {s t : Container ι} {alarm other : ι} {now sec day : Nat} {r : Nat}

/-- The event that was raised then waits. -/
def Raised (s : Container ι) (t : Nat) : Prop := s.event = some t ∨ s.received = some t

/-- The RTC is or will be armed for the alarm that comes next, or does not need to. -/
def Aimed (s : Container ι) (target : Option ι) : Prop :=
  s.Waits ∨ (∀ alarm, s.started alarm = false) ∨ ∃ alarm, target = some alarm ∧ s.Next alarm

/-- The alarm that is to be deleted is not started. -/
def Gone (s : Container ι) : Caller ι → Prop
  | .service | .user none => True
  | .user (some alarm) => s.started alarm = false

/-- What the call that has the mutex relies on. -/
def Ready (s : Container ι) : Prop :=
  match s.phase with
  | .idle => s.Aimed s.current
  | .starts alarm => s.Aimed s.current ∧ alarm ∈ s.list ∧ s.started alarm = false
  | .wakes caller | .selects caller => s.Gone caller
  | .arms target caller =>
    s.Gone caller ∧ s.Aimed target ∧ ∀ alarm ∈ target, s.started alarm = true

structure Sound (s : Container ι) : Prop where
  nodup : s.list.Nodup
  listed : ∀ alarm, s.started alarm = true → alarm ∈ s.list
  small : ∀ alarm ∈ s.list, s.wktime alarm < daySeconds
  armed : s.armed = s.current.map s.wktime
  current : ∀ alarm ∈ s.current, s.started alarm = true
  updated : ∀ last ∈ s.lastUpdate, last ≤ s.now
  called : ∀ alarm, ∀ t ∈ s.calls alarm, (∃ last ∈ s.lastUpdate, t ≤ last) ∧
    s.wktime alarm ≤ t % daySeconds
  raised : ∀ t, s.Raised t → t ≤ s.now ∧ s.now ≤ t + rtAlarmDelay ∧
    t / daySeconds = s.now / daySeconds
  /-- A started alarm has been called on a day, or an event waits that has been raised for it. -/
  daily : ∀ alarm day, s.started alarm = true → s.since alarm < s.timeOn alarm day →
    s.timeOn alarm day ≤ s.now →
      s.Once alarm day ∨ s.callsOn alarm day = [] ∧ ∃ t, s.Raised t ∧ t ≤ s.timeOn alarm day
  ready : s.Ready

theorem waits_iff : s.Waits ↔ ∃ t, s.Raised t := by
  constructor
  · rintro (h | h)
    · obtain ⟨t, ht⟩ := ne_none_iff_exists'.mp h
      exact ⟨t, .inl ht⟩
    · obtain ⟨t, ht⟩ := ne_none_iff_exists'.mp h
      exact ⟨t, .inr ht⟩
  · rintro ⟨t, h | h⟩
    · exact .inl (by rw [h]; exact some_ne_none t)
    · exact .inr (by rw [h]; exact some_ne_none t)

/-- Without an update since its time an alarm has not been called on a day. -/
theorem Sound.callsOn_eq_nil (h : s.Sound)
    (hlater : ∀ last ∈ s.lastUpdate, last < s.timeOn alarm day) : s.callsOn alarm day = [] := by
  unfold callsOn
  rw [filter_eq_nil_iff]
  intro t ht hday
  obtain ⟨⟨last, hlast, hle⟩, htime⟩ := h.called alarm t ht
  have hless := hlater last hlast
  have hday := of_decide_eq_true hday
  unfold timeOn daySeconds at *
  omega

/-- When the time of a started alarm comes, an event is raised, or one waits. -/
theorem Sound.rings (h : s.Sound) (hcareful : s.TickCareful)
    (hstarted : s.started alarm = true) (htime : s.wktime alarm = (s.now + 1) % daySeconds) :
    s.Waits ∨ s.armed = some ((s.now + 1) % daySeconds) := by
  by_contra hno
  obtain ⟨hquiet, hsilent⟩ := not_or.mp hno
  by_cases hidle : s.phase = .idle
  · have hready := h.ready
    unfold Ready at hready
    rw [hidle] at hready
    obtain hwaits | hnone | ⟨next, hcurrent, hnext⟩ := hready
    · exact hquiet hwaits
    · rw [hnone] at hstarted
      cases hstarted
    · have hsmall := h.small alarm (h.listed alarm hstarted)
      have hon := h.current next hcurrent
      have hsmallNext := h.small next (h.listed next hon)
      have hone := (till_eq_one hsmall).mpr htime
      have hle := hnext alarm hstarted
      have hpos : 1 ≤ till s.now (s.wktime next) := till_pos hsmallNext
      have hring := (till_eq_one hsmallNext).mp (by omega : till s.now (s.wktime next) = 1)
      rw [h.armed, hcurrent, map_some, hring] at hsilent
      exact hsilent rfl
  · obtain hwaits | harmed | hnever := hcareful.1 hidle
    · exact hquiet hwaits
    · exact hsilent harmed
    · exact hnever alarm hstarted htime

theorem inTime_iff {raised : Option Nat} :
    inTime raised now = true ↔ ∀ t, raised = some t → now ≤ t + rtAlarmDelay := by
  cases raised with
  | none => exact iff_of_true rfl fun _ hno => by cases hno
  | some t =>
    unfold inTime
    rw [all_some, decide_eq_true_iff]
    exact ⟨fun h _ ht => some.inj ht ▸ h, fun h => h t rfl⟩

/-- What has been called on a day, and in time, stays so. -/
theorem Once.congr (h : s.Once alarm day) (hcalls : t.calls alarm = s.calls alarm)
    (hwktime : t.wktime alarm = s.wktime alarm) : t.Once alarm day := by
  unfold Once callsOn timeOn at *
  rw [hcalls, hwktime]
  exact h

/-- A second later. -/
def ticked (s : Container ι) : Container ι := { s with
  now := s.now + 1
  event := if s.armed = some ((s.now + 1) % daySeconds) then s.event.or (some (s.now + 1)) else s.event }

/-- What waits goes on waiting. -/
theorem Raised.ticked (hr : s.Raised r) : s.ticked.Raised r := by
  refine hr.imp_left fun hr => ?_
  show ite _ _ _ = _
  rw [hr]
  split_ifs <;> rfl

/-- What is new was raised now. -/
theorem Raised.of_ticked (hr : s.ticked.Raised r) : s.Raised r ∨ r = s.now + 1 := by
  rcases hr with hr | hr
  · unfold Container.ticked at hr
    split_ifs at hr
    · cases hevent : s.event with
      | none =>
        rw [hevent] at hr
        exact .inr (some.inj hr).symm
      | some r' =>
        rw [hevent] at hr
        exact .inl (.inl (hevent.trans hr))
    · exact .inl (.inl hr)
  · exact .inl (.inr hr)

section

variable (h : s.Sound) (hcareful : s.TickCareful)
include h hcareful

/-- When the time of a started alarm comes, an event waits for it. -/
theorem Sound.raised_ticked (hstarted : s.started alarm = true)
    (htime : s.wktime alarm = (s.now + 1) % daySeconds) : ∃ r, s.ticked.Raised r ∧ r ≤ s.now + 1 := by
  obtain hwaits | harmed := h.rings hcareful hstarted htime
  · obtain ⟨r, hr⟩ := waits_iff.mp hwaits
    exact ⟨r, hr.ticked, Nat.le_succ_of_le (h.raised r hr).1⟩
  · cases hevent : s.event with
    | none =>
      refine ⟨s.now + 1, .inl ?_, Nat.le_refl _⟩
      unfold ticked
      rw [if_pos harmed, hevent]
      rfl
    | some r =>
      have hr : s.Raised r := .inl hevent
      exact ⟨r, hr.ticked, Nat.le_succ_of_le (h.raised r hr).1⟩

/-- The alarm that comes next still does, unless one has come. -/
theorem Sound.aimed_ticked {target : Option ι} (htargets : ∀ alarm ∈ target, s.started alarm = true)
    (haimed : s.Aimed target) : s.ticked.Aimed target := by
  rcases haimed with hw | hnone | ⟨next, htarget, hnext⟩
  · obtain ⟨r, hr⟩ := waits_iff.mp hw
    exact .inl (waits_iff.mpr ⟨r, hr.ticked⟩)
  · exact .inr (.inl hnone)
  · by_cases hcome : ∃ alarm, s.started alarm = true ∧ s.wktime alarm = (s.now + 1) % daySeconds
    · obtain ⟨alarm, hstarted, htime⟩ := hcome
      obtain ⟨r, hr, -⟩ := h.raised_ticked hcareful hstarted htime
      exact .inl (waits_iff.mpr ⟨r, hr⟩)
    · have hlater : ∀ alarm, s.started alarm = true →
          till (s.now + 1) (s.wktime alarm) + 1 = till s.now (s.wktime alarm) :=
        fun alarm hs => till_succ (h.small alarm (h.listed alarm hs)) fun htime =>
          hcome ⟨alarm, hs, htime⟩
      refine .inr (.inr ⟨next, htarget, fun alarm hs => ?_⟩)
      have hle := hnext alarm hs
      have hfirst := hlater next (htargets next htarget)
      have hsecond := hlater alarm hs
      show till (s.now + 1) (s.wktime next) ≤ till (s.now + 1) (s.wktime alarm)
      omega

/-- An alarm whose time comes now has not been called on this day. -/
theorem Sound.daily_ticked (hstarted : s.started alarm = true)
    (hsince : s.since alarm < s.timeOn alarm day) (htime : s.timeOn alarm day ≤ s.now + 1) :
    s.Once alarm day ∨
      s.callsOn alarm day = [] ∧ ∃ r, s.ticked.Raised r ∧ r ≤ s.timeOn alarm day := by
  rcases Nat.lt_or_ge s.now (s.timeOn alarm day) with hlater | hover
  · have hnow : s.timeOn alarm day = s.now + 1 := by omega
    have hsmall := h.small alarm (h.listed alarm hstarted)
    have hring : s.wktime alarm = (s.now + 1) % daySeconds := by
      unfold timeOn daySeconds at *
      omega
    obtain ⟨r, hr, hle⟩ := h.raised_ticked hcareful hstarted hring
    have hnone : s.callsOn alarm day = [] := h.callsOn_eq_nil fun last hlast =>
      (h.updated last hlast).trans_lt hlater
    exact .inr ⟨hnone, r, hr, hnow ▸ hle⟩
  · obtain honce | ⟨hnone, r, hr, hle⟩ := h.daily alarm day hstarted hsince hover
    · exact .inl honce
    · exact .inr ⟨hnone, r, hr.ticked, hle⟩

theorem Sound.tick (hevent : ∀ r, s.Raised r → s.now + 1 ≤ r + rtAlarmDelay) : s.ticked.Sound where
  nodup := h.nodup
  listed := h.listed
  small := h.small
  armed := h.armed
  current := h.current
  updated := fun last hlast => Nat.le_succ_of_le (h.updated last hlast)
  called := h.called
  raised := fun r hr => by
    show r ≤ s.now + 1 ∧ s.now + 1 ≤ r + rtAlarmDelay ∧ r / daySeconds = (s.now + 1) / daySeconds
    obtain hr | rfl := hr.of_ticked
    · obtain ⟨hle, -, hday⟩ := h.raised r hr
      have hsame : (s.now + 1) % daySeconds ≠ 0 := fun hzero =>
        hcareful.2 hzero (waits_iff.mpr ⟨r, hr⟩)
      refine ⟨Nat.le_succ_of_le hle, hevent r hr, ?_⟩
      unfold daySeconds at *
      omega
    · exact ⟨Nat.le_refl _, Nat.le_add_right _ _, rfl⟩
  daily := fun _ _ hstarted hsince htime => h.daily_ticked hcareful hstarted hsince htime
  ready := by
    have hready := h.ready
    have hphase : s.ticked.phase = s.phase := rfl
    unfold Ready at hready ⊢
    rw [hphase]
    cases hp : s.phase with
    | idle =>
      rw [hp] at hready
      exact h.aimed_ticked hcareful h.current hready
    | starts alarm =>
      rw [hp] at hready
      exact ⟨h.aimed_ticked hcareful h.current hready.1, hready.2⟩
    | wakes caller | selects caller =>
      rw [hp] at hready
      exact hready
    | arms target caller =>
      rw [hp] at hready
      obtain ⟨hgone, haim, htargets⟩ := hready
      exact ⟨hgone, h.aimed_ticked hcareful htargets haim, htargets⟩

end

/-- The alarms for which an event waits are in their time. -/
theorem Sound.wakesUp_of_raised (h : s.Sound) (hstarted : s.started alarm = true)
    (hr : s.Raised r) (hle : r ≤ s.timeOn alarm day) (htime : s.timeOn alarm day ≤ s.now) :
    s.wakesUp alarm ∧ day = s.now / daySeconds := by
  obtain ⟨-, hdelay, hday⟩ := h.raised r hr
  have hsmall := h.small alarm (h.listed alarm hstarted)
  unfold wakesUp secNow timeOn rtAlarmDelay daySeconds at *
  refine ⟨⟨hstarted, ?_, ?_⟩, ?_⟩ <;> omega

variable {caller : Caller ι}

/-- The first loop of an update leaves every alarm called whose time has come. -/
theorem Sound.wakes {calls : ι → List Nat} (h : s.Sound) (hgone : s.Gone caller)
    (hcareful : ∀ alarm, s.wakesUp alarm → s.since alarm < s.timeOn alarm (s.now / daySeconds) →
      ∀ last ∈ s.lastUpdate, last < s.timeOn alarm (s.now / daySeconds))
    (hcalls : ∀ alarm, (s.wakesUp alarm → calls alarm = s.calls alarm ++ [s.now]) ∧
      (¬ s.wakesUp alarm → calls alarm = s.calls alarm)) {received : Option Nat}
    (hreceived : received = s.received ∨ received = none) : Sound { s with
      received := received
      calls := calls
      phase := .selects caller
      lastUpdate := some s.now } where
  nodup := h.nodup
  listed := h.listed
  small := h.small
  armed := h.armed
  current := h.current
  updated := fun last hlast => (some.inj hlast).symm.le
  called := fun alarm r hr => by
    have hbefore : r ∈ s.calls alarm → r ≤ s.now ∧ s.wktime alarm ≤ r % daySeconds := fun hr => by
      obtain ⟨⟨last, hlast, hle⟩, htime⟩ := h.called alarm r hr
      exact ⟨hle.trans (h.updated last hlast), htime⟩
    have hnow : r ≤ s.now ∧ s.wktime alarm ≤ r % daySeconds := by
      dsimp only at hr
      by_cases hwake : s.wakesUp alarm
      · rw [(hcalls alarm).1 hwake, mem_append, mem_singleton] at hr
        obtain hr | rfl := hr
        · exact hbefore hr
        · exact ⟨Nat.le_refl _, hwake.2.1⟩
      · rw [(hcalls alarm).2 hwake] at hr
        exact hbefore hr
    exact ⟨⟨s.now, rfl, hnow.1⟩, hnow.2⟩
  raised := fun r hr => by
    refine h.raised r (hr.imp_right fun hreceive => ?_)
    obtain hsame | hnone := hreceived
    · exact hsame ▸ hreceive
    · rw [show received = some r from hreceive] at hnone
      cases hnone
  daily := fun alarm day hstarted hsince htime => by
    left
    have hold := h.daily alarm day hstarted hsince htime
    by_cases hwake : s.wakesUp alarm
    · by_cases hday : day = s.now / daySeconds
      · subst hday
        refine ⟨s.now, ?_, htime, ?_⟩
        · have hnone := h.callsOn_eq_nil (hcareful alarm hwake hsince)
          unfold callsOn at *
          dsimp only
          rw [(hcalls alarm).1 hwake, filter_append, hnone]
          simp
        · have hsoon := hwake.2.2
          unfold timeOn secNow rtAlarmDelay daySeconds at *
          dsimp only
          omega
      · obtain ⟨r, hone, hbounds⟩ | ⟨-, r, hr, hle⟩ := hold
        · refine ⟨r, ?_, hbounds⟩
          unfold callsOn at *
          dsimp only
          rw [(hcalls alarm).1 hwake, filter_append, hone]
          simp [Ne.symm hday]
        · exact absurd (h.wakesUp_of_raised hstarted hr hle htime).2 hday
    · obtain honce | ⟨-, r, hr, hle⟩ := hold
      · exact honce.congr ((hcalls alarm).2 hwake) rfl
      · exact absurd (h.wakesUp_of_raised hstarted hr hle htime).1 hwake
  ready := hgone

theorem Sound.selects (h : s.Sound) (hgone : s.Gone caller)
    (hcareful : s.current = none → s.Waits ∨ ∀ alarm, s.started alarm = true →
      ∃ other, s.started other = true ∧ s.wktime other ≠ s.secNow) :
    Sound { s with phase := .arms s.selected caller } := by
  refine ⟨h.nodup, h.listed, h.small, h.armed, h.current, h.updated, h.called, h.raised, h.daily,
    hgone, ?_⟩
  by_cases hother : ∃ other, s.started other = true ∧ s.wktime other ≠ s.secNow
  · obtain ⟨next, hselected, hstarted, hnext⟩ := selected_next h.listed h.small hother
    refine ⟨.inr (.inr ⟨next, hselected, hnext⟩), fun alarm halarm => ?_⟩
    obtain rfl := some.inj (hselected.symm.trans halarm)
    exact hstarted
  · have hnow : ∀ alarm, s.started alarm = true → s.wktime alarm = s.secNow := fun alarm hstarted =>
      by_contra fun hne => hother ⟨alarm, hstarted, hne⟩
    have hselected := selected_current hnow h.small
    rw [hselected]
    refine ⟨?_, h.current⟩
    cases hcurrent : s.current with
    | some current =>
      -- all come again in a day
      refine .inr (.inr ⟨current, rfl, fun alarm hstarted => ?_⟩)
      rw [hnow current (h.current current hcurrent), hnow alarm hstarted]
    | none =>
      rcases hcareful hcurrent with hwaits | hall
      · exact .inl hwaits
      · refine .inr (.inl fun alarm => ?_)
        cases hstarted : s.started alarm with
        | false => rfl
        | true => exact absurd (hall alarm hstarted) hother

/-- A call goes on to where what it relies on holds. -/
theorem Sound.phase {phase : Phase ι} (h : s.Sound) (hready : Ready { s with phase := phase }) :
    Sound { s with phase := phase } :=
  ⟨h.nodup, h.listed, h.small, h.armed, h.current, h.updated, h.called, h.raised, h.daily, hready⟩

/-- The alarms that are started have been so all the time. -/
def Same (s t : Container ι) : Prop :=
  ∀ alarm, t.started alarm = true → s.started alarm = true ∧ t.wktime alarm = s.wktime alarm ∧
    t.calls alarm = s.calls alarm ∧ t.since alarm = s.since alarm

theorem same_of_ne (halarm : t.started alarm = false)
    (hother : ∀ other, other ≠ alarm → t.started other = s.started other ∧
      t.wktime other = s.wktime other ∧ t.calls other = s.calls other ∧
        t.since other = s.since other) : Same s t := by
  intro other hstarted
  have hne : other ≠ alarm := by
    rintro rfl
    exact Bool.false_ne_true (halarm.symm.trans hstarted)
  obtain ⟨hon, hrest⟩ := hother other hne
  exact ⟨hon.symm.trans hstarted, hrest⟩

theorem Sound.daily_of_same (h : s.Sound) (hsame : Same s t) (hnow : t.now = s.now)
    (hraised : ∀ r, s.Raised r → t.Raised r) (hstarted : t.started alarm = true)
    (hsince : t.since alarm < t.timeOn alarm day) (htime : t.timeOn alarm day ≤ t.now) :
    t.Once alarm day ∨ t.callsOn alarm day = [] ∧ ∃ r, t.Raised r ∧ r ≤ t.timeOn alarm day := by
  obtain ⟨hon, hwktime, hcalls, hsameSince⟩ := hsame alarm hstarted
  have htimeOn : t.timeOn alarm day = s.timeOn alarm day := by
    unfold timeOn
    rw [hwktime]
  have hcallsOn : t.callsOn alarm day = s.callsOn alarm day := by
    unfold callsOn
    rw [hcalls]
  rw [hsameSince, htimeOn] at hsince
  rw [htimeOn, hnow] at htime
  rw [htimeOn, hcallsOn]
  rcases h.daily alarm day hon hsince htime with honce | ⟨hnone, r, hr, hle⟩
  · exact .inl (honce.congr hcalls hwktime)
  · exact .inr ⟨hnone, r, hraised r hr, hle⟩

theorem Aimed.of_same {target : Option ι} (h : s.Aimed target) (hsame : Same s t)
    (hnow : t.now = s.now) (hwaits : s.Waits → t.Waits)
    (htarget : ∀ alarm ∈ target, t.started alarm = true) : t.Aimed target := by
  obtain hw | hnone | ⟨next, hnext, hfirst⟩ := h
  · exact .inl (hwaits hw)
  · refine .inr (.inl fun alarm => ?_)
    cases hstarted : t.started alarm with
    | false => rfl
    | true => exact (hsame alarm hstarted).1.symm.trans (hnone alarm)
  · refine .inr (.inr ⟨next, hnext, fun other hstarted => ?_⟩)
    obtain ⟨hon, hwktime, -⟩ := hsame other hstarted
    rw [hnow, hwktime, (hsame next (htarget next hnext)).2.1]
    exact hfirst other hon

/-- `alarm_set` for a started alarm that comes next. -/
theorem Sound.alarmSet (h : s.Sound) (hstarted : s.started alarm = true)
    (haimed : s.Aimed (some alarm)) : Sound { s.alarmSet alarm with phase := .idle } := by
  refine ⟨h.nodup, h.listed, h.small, ?_, ?_, h.updated, h.called, h.raised, h.daily, haimed⟩
  · exact if_pos hstarted
  · rintro other hother
    cases hother
    exact hstarted

theorem Sound.receive (h : s.Sound) (hnone : s.received = none) :
    Sound { s with event := none, received := s.event } := by
  have hraised : ∀ r, Raised { s with event := none, received := s.event } r ↔ s.Raised r := by
    intro r
    unfold Raised
    rw [hnone]
    simp
  have hsame : Same s { s with event := none, received := s.event } := fun _ hon =>
    ⟨hon, rfl, rfl, rfl⟩
  have hwaits : s.Waits → Waits { s with event := none, received := s.event } := fun hw => by
    obtain ⟨r, hr⟩ := waits_iff.mp hw
    exact waits_iff.mpr ⟨r, (hraised r).mpr hr⟩
  refine ⟨h.nodup, h.listed, h.small, h.armed, h.current, h.updated, h.called,
    fun r hr => h.raised r ((hraised r).mp hr), fun alarm day hstarted hsince htime =>
      h.daily_of_same hsame rfl (fun r => (hraised r).mpr) hstarted hsince htime, ?_⟩
  have hready := h.ready
  unfold Ready at hready ⊢
  cases hphase : s.phase with
  | idle =>
    rw [hphase] at hready
    exact Aimed.of_same hready hsame rfl hwaits h.current
  | starts alarm =>
    rw [hphase] at hready
    exact hready.imp_left fun haimed => Aimed.of_same haimed hsame rfl hwaits h.current
  | wakes caller | selects caller =>
    rw [hphase] at hready
    exact hready
  | arms target caller =>
    rw [hphase] at hready
    obtain ⟨hgone, haimed, htarget⟩ := hready
    exact ⟨hgone, Aimed.of_same haimed hsame rfl hwaits htarget, htarget⟩

theorem Initial.sound (h : s.Initial) : s.Sound := by
  obtain ⟨hlist, hstarted, hcurrent, harmed, hevent, hreceived, hphase, hcalls, hupdate⟩ := h
  have hoff : ∀ {alarm}, ¬ s.started alarm = true := fun {alarm} =>
    ne_true_of_eq_false (hstarted alarm)
  have hquiet : ∀ r, ¬ s.Raised r := by
    rintro r (hr | hr)
    · cases hevent.symm.trans hr
    · cases hreceived.symm.trans hr
  refine
    { nodup := hlist ▸ nodup_nil
      listed := fun _ hon => absurd hon hoff
      small := fun alarm hmem => ?_
      armed := ?_
      current := fun alarm hmem => ?_
      updated := fun last hlast => ?_
      called := fun alarm r hr => ?_
      raised := fun r hr => absurd hr (hquiet r)
      daily := fun _ _ hon => absurd hon hoff
      ready := ?_ }
  · rw [hlist] at hmem
    cases hmem
  · rw [harmed, hcurrent]
    rfl
  · rw [hcurrent] at hmem
    cases hmem
  · rw [hupdate] at hlast
    cases hlast
  · rw [hcalls alarm] at hr
    cases hr
  · unfold Ready
    rw [hphase]
    exact .inr (.inl hstarted)

theorem Sound.kept (h : s.Sound) : s.Kept where
  armed := fun hidle hquiet ⟨other, hother⟩ => by
    have hready := h.ready
    unfold Ready at hready
    rw [hidle] at hready
    obtain hwaits | hnone | ⟨next, hcurrent, hnext⟩ := hready
    · exact absurd hwaits hquiet
    · exact absurd hother (ne_true_of_eq_false (hnone other))
    · refine ⟨next, h.current next hcurrent, ?_, hnext⟩
      rw [h.armed, hcurrent, map_some]
  daily := fun alarm day hstarted hsince hover => by
    have hsmall := h.small alarm (h.listed alarm hstarted)
    have htime : s.timeOn alarm day < (day + 1) * daySeconds := by
      rw [Nat.add_mul]
      exact Nat.add_lt_add_left hsmall _
    have hlater : s.since alarm < s.timeOn alarm day := Nat.lt_add_right _ hsince
    obtain honce | ⟨-, r, hr, hle⟩ := h.daily alarm day hstarted hlater (htime.le.trans hover)
    · exact honce
    · -- what was raised on that day would wait over midnight
      obtain ⟨-, -, hday⟩ := h.raised r hr
      unfold daySeconds at *
      omega

section

variable [DecidableEq ι]

section

variable (h : s.Sound)
include h

theorem Sound.finish (hgone : s.Gone caller)
    (haimed : s.Aimed s.current) : (s.finish caller).Sound := by
  cases caller with
  | service => exact h.phase haimed
  | user deletes =>
    cases deletes with
    | none => exact h.phase haimed
    | some alarm =>
      refine ⟨h.nodup.erase alarm, fun other hstarted => ?_, fun other hmem => ?_, h.armed,
        h.current, h.updated, h.called, h.raised, h.daily, haimed⟩
      · have hne : other ≠ alarm := by
          rintro rfl
          exact Bool.false_ne_true (hgone.symm.trans hstarted)
        exact (mem_erase_of_ne hne).mpr (h.listed other hstarted)
      · exact h.small other (mem_of_mem_erase hmem)

theorem Sound.arms {target : Option ι}
    (hphase : s.phase = .arms target caller) (hstep : s.goOn = some t) : t.Sound := by
  have hready := h.ready
  unfold Ready at hready
  rw [hphase] at hready
  obtain ⟨hgone, haimed, htarget⟩ := hready
  unfold goOn at hstep
  rw [hphase] at hstep
  cases target with
  | none =>
    cases hstep
    refine h.finish hgone ?_
    obtain hwaits | hnone | ⟨_, hno, -⟩ := haimed
    · exact .inl hwaits
    · exact .inr (.inl hnone)
    · cases hno
  | some alarm =>
    cases hstep
    have hset := h.alarmSet (htarget alarm rfl) haimed
    exact hset.finish hgone haimed

theorem Sound.begin (hmem : alarm ∈ s.list) (hoff : s.started alarm = false)
    (ht : ∃ phase, t = { s with
      started := update s.started alarm true
      since := update s.since alarm s.now
      phase := phase }) (hready : t.Ready) : t.Sound := by
  obtain ⟨phase, rfl⟩ := ht
  refine ⟨h.nodup, fun other hother => ?_, h.small, h.armed, fun other hother => ?_,
    h.updated, h.called, h.raised, fun other day hother hsince htime => ?_, hready⟩
  · by_cases hsame : other = alarm
    · exact hsame ▸ hmem
    · dsimp only at hother
      rw [update_of_ne hsame] at hother
      exact h.listed other hother
  · have hon := h.current other hother
    have hne : other ≠ alarm := by
      rintro rfl
      exact Bool.false_ne_true (hoff.symm.trans hon)
    dsimp only
    rw [update_of_ne hne]
    exact hon
  · by_cases hsame : other = alarm
    · subst hsame
      dsimp only at hsince
      rw [update_self] at hsince
      exact absurd htime (Nat.not_le_of_lt hsince)
    · dsimp only at hsince hother
      rw [update_of_ne hsame] at hsince hother
      exact h.daily other day hother hsince htime

theorem Sound.starts (hphase : s.phase = .starts alarm)
    (hcareful : ∀ current ∈ s.current, s.wktime current = s.secNow →
      s.wktime alarm = s.secNow ∨ s.Waits) (hstep : s.goOn = some t) : t.Sound := by
  have hready := h.ready
  unfold Ready at hready
  rw [hphase] at hready
  obtain ⟨haimed, hmem, hoff⟩ := hready
  have hon : ∀ other, update s.started alarm true other = true →
      other = alarm ∨ s.started other = true := by
    intro other hother
    by_cases hsame : other = alarm
    · exact .inl hsame
    · rw [update_of_ne hsame] at hother
      exact .inr hother
  have hstarted : update s.started alarm true alarm = true := update_self ..
  have hnew := h.small alarm hmem
  unfold goOn at hstep
  rw [hphase] at hstep
  cases hcurrent : s.current with
  | none =>
    rw [hcurrent] at hstep haimed
    cases hstep
    refine h.begin hmem hoff ⟨_, by rw [hcurrent]⟩ ⟨trivial, ?_, fun other hother => ?_⟩
    · obtain hwaits | hnone | ⟨_, hno, -⟩ := haimed
      · exact .inl hwaits
      · refine .inr (.inr ⟨alarm, rfl, fun other hother => ?_⟩)
        obtain rfl | hother := hon other hother
        · exact Nat.le_refl _
        · exact absurd hother (ne_true_of_eq_false (hnone other))
      · cases hno
    · cases hother
      exact hstarted
  | some current =>
    have hcurrentOn := h.current current hcurrent
    have hold := h.small current (h.listed current hcurrentOn)
    rw [hcurrent] at hstep haimed
    dsimp only at hstep
    split_ifs at hstep with hsooner
    · cases hstep
      refine h.begin hmem hoff ⟨_, by rw [hcurrent]⟩ ⟨trivial, ?_, fun other hother => ?_⟩
      · obtain hwaits | hnone | ⟨next, hnext, hfirst⟩ := haimed
        · exact .inl hwaits
        · exact absurd hcurrentOn (ne_true_of_eq_false (hnone current))
        · cases hnext
          have hle := till_le_of_sooner hold hnew hsooner
          refine .inr (.inr ⟨alarm, rfl, fun other hother => ?_⟩)
          obtain rfl | hother := hon other hother
          · exact Nat.le_refl _
          · exact hle.trans (hfirst other hother)
      · cases hother
        exact hstarted
    · cases hstep
      refine h.begin hmem hoff ⟨_, by rw [hcurrent]⟩ ?_
      obtain hwaits | hnone | ⟨next, hnext, hfirst⟩ := haimed
      · exact .inl hwaits
      · exact absurd hcurrentOn (ne_true_of_eq_false (hnone current))
      · cases hnext
        by_cases hw : s.Waits
        · exact .inl hw
        · refine .inr (.inr ⟨current, rfl, fun other hother => ?_⟩)
          obtain rfl | hother := hon other hother
          · exact till_le_of_not_sooner hold hnew hsooner fun hnow =>
              (hcareful current hcurrent hnow).resolve_right hw
          · exact hfirst other hother

/-- The first loop of an update, and what the service has received is handled. -/
theorem Sound.calls (hphase : s.phase = .wakes caller)
    (hcareful : ∀ alarm, s.wakesUp alarm → s.since alarm < s.timeOn alarm (s.now / daySeconds) →
      ∀ last ∈ s.lastUpdate, last < s.timeOn alarm (s.now / daySeconds))
    (hstep : s.goOn = some t) : t.Sound := by
  have hgone : s.Gone caller := by
    have hready := h.ready
    unfold Ready at hready
    rw [hphase] at hready
    exact hready
  obtain ⟨received, hreceived, hgo⟩ : ∃ received, (received = s.received ∨ received = none) ∧
      (if s.list = [] then
        some (Container.finish { s with received := received, phase := .wakes caller } caller)
      else some
        { s.list.foldl alarmWakeup { s with received := received, phase := .wakes caller } with
          phase := .selects caller
          lastUpdate := some s.now }) = some t := by
    unfold goOn at hstep
    rw [hphase] at hstep
    cases caller with
    | service => exact ⟨none, .inr rfl, hstep⟩
    | user deletes =>
      refine ⟨s.received, .inl rfl, ?_⟩
      rw [← hphase]
      exact hstep
  split_ifs at hgo with hempty
  · cases hgo
    have hnone : ∀ alarm, s.started alarm = false := by
      intro alarm
      cases hstarted : s.started alarm with
      | false => rfl
      | true =>
        have hmem := h.listed alarm hstarted
        rw [hempty] at hmem
        cases hmem
    have hsound : Sound { s with received := received, phase := .wakes caller } :=
      { nodup := h.nodup
        listed := h.listed
        small := h.small
        armed := h.armed
        current := h.current
        updated := h.updated
        called := h.called
        raised := by
          refine fun r hr => h.raised r (hr.imp_right fun hreceive => ?_)
          obtain rfl | rfl := hreceived
          · exact hreceive
          · cases hreceive
        daily := fun alarm _ hstarted => absurd hstarted (ne_true_of_eq_false (hnone alarm))
        ready := hgone }
    exact hsound.finish hgone (.inr (.inl hnone))
  · cases hgo
    obtain ⟨calls, hfold, hcalls⟩ := foldl_alarmWakeup h.nodup
    rw [hfold]
    refine h.wakes hgone hcareful (fun alarm => ⟨fun hwake => ?_, fun hno => ?_⟩) hreceived
    · exact (hcalls alarm).trans (if_pos ⟨h.listed alarm hwake.1, hwake⟩)
    · exact (hcalls alarm).trans (if_neg fun hyes => hno hyes.2)

theorem Sound.goOn (hcareful : s.CallCareful) (hstep : s.goOn = some t) : t.Sound := by
  unfold CallCareful at hcareful
  cases hphase : s.phase with
  | idle =>
    unfold Container.goOn at hstep
    rw [hphase] at hstep
    cases hstep
  | starts alarm =>
    rw [hphase] at hcareful
    exact h.starts hphase hcareful hstep
  | wakes caller =>
    rw [hphase] at hcareful
    exact h.calls hphase hcareful hstep
  | selects caller =>
    rw [hphase] at hcareful
    have hready := h.ready
    unfold Ready at hready
    rw [hphase] at hready
    unfold Container.goOn at hstep
    rw [hphase] at hstep
    cases hstep
    exact h.selects hready hcareful
  | arms target caller => exact h.arms hphase hstep

theorem Sound.create {wktime : Nat} (hidle : s.phase = .idle)
    (hnew : alarm ∉ s.list) (hwktime : wktime < daySeconds) (ht : t = { s with
      list := alarm :: s.list
      wktime := update s.wktime alarm wktime
      started := update s.started alarm false
      calls := update s.calls alarm [] }) : t.Sound := by
  subst ht
  have hsame := same_of_ne (s := s) (t := { s with
      list := alarm :: s.list
      wktime := update s.wktime alarm wktime
      started := update s.started alarm false
      calls := update s.calls alarm [] }) (update_self ..) fun other hne =>
    ⟨update_of_ne hne .., update_of_ne hne .., update_of_ne hne .., rfl⟩
  have hcurrent : ∀ other ∈ s.current, update s.started alarm false other = true ∧
      other ≠ alarm := by
    intro other hother
    have hon := h.current other hother
    have hne : other ≠ alarm := by
      rintro rfl
      exact hnew (h.listed other hon)
    exact ⟨(update_of_ne hne ..).trans hon, hne⟩
  refine
    { nodup := nodup_cons.mpr ⟨hnew, h.nodup⟩
      listed := fun other hother => .tail _ (h.listed other (hsame other hother).1)
      small := fun other hmem => ?_
      armed := ?_
      current := fun other hother => (hcurrent other hother).1
      updated := h.updated
      called := fun other r hr => ?_
      raised := h.raised
      daily := fun _ _ => h.daily_of_same hsame rfl fun _ => id
      ready := ?_ }
  · by_cases heq : other = alarm
    · subst heq
      dsimp only
      rw [update_self]
      exact hwktime
    · dsimp only
      rw [update_of_ne heq]
      exact h.small other ((mem_cons.mp hmem).resolve_left heq)
  · dsimp only
    rw [h.armed]
    cases hc : s.current with
    | none => rfl
    | some current =>
      rw [map_some, map_some, update_of_ne (hcurrent current hc).2]
  · by_cases heq : other = alarm
    · subst heq
      dsimp only at hr
      rw [update_self] at hr
      cases hr
    · dsimp only at hr ⊢
      rw [update_of_ne heq] at hr ⊢
      exact h.called other r hr
  · have hready := h.ready
    unfold Ready at hready ⊢
    rw [hidle] at hready ⊢
    exact Aimed.of_same hready hsame rfl id fun other hother => (hcurrent other hother).1

theorem Sound.setUp (hidle : s.phase = .idle) (hmem : alarm ∈ s.list)
    (hoff : s.started alarm = false) (ht : t = { s with
      wktime := update s.wktime alarm (alarmSetup (s.wktime alarm))
      phase := .starts alarm }) : t.Sound := by
  subst ht
  have hsame := same_of_ne (s := s) (t := { s with
      wktime := update s.wktime alarm (alarmSetup (s.wktime alarm))
      phase := .starts alarm }) hoff fun other hne => ⟨rfl, update_of_ne hne .., rfl, rfl⟩
  have hless : alarmSetup (s.wktime alarm) ≤ s.wktime alarm := by
    unfold alarmSetup rtAlarmDelay
    split_ifs <;> omega
  have hupdate : ∀ other, update s.wktime alarm (alarmSetup (s.wktime alarm)) other ≤
      s.wktime other := by
    intro other
    by_cases heq : other = alarm
    · subst heq
      rw [update_self]
      exact hless
    · rw [update_of_ne heq]
  refine
    { nodup := h.nodup
      listed := h.listed
      small := fun other hother => (hupdate other).trans_lt (h.small other hother)
      armed := ?_
      current := h.current
      updated := h.updated
      called := fun other r hr => (h.called other r hr).imp_right (hupdate other).trans
      raised := h.raised
      daily := fun _ _ => h.daily_of_same hsame rfl fun _ => id
      ready := ⟨?_, hmem, hoff⟩ }
  · dsimp only
    rw [h.armed]
    cases hc : s.current with
    | none => rfl
    | some current => exact congrArg some (hsame current (h.current current hc)).2.1.symm
  · have hready := h.ready
    unfold Ready at hready
    rw [hidle] at hready
    exact Aimed.of_same hready hsame rfl id h.current

end

theorem same_clear (s : Container ι) (alarm : ι) : Same s (s.clear alarm) := by
  unfold Container.clear
  dsimp only
  split_ifs
  all_goals
    exact same_of_ne (update_self ..) fun _ hne =>
      ⟨update_of_ne hne .., rfl, rfl, rfl⟩

/-- An alarm that is not the current one is stopped. -/
theorem Sound.aimed_clear (h : s.Sound) (hidle : s.phase = .idle) (hne : s.current ≠ some alarm) :
    Aimed (s.clear alarm) (s.clear alarm).current := by
  have hready := h.ready
  unfold Ready at hready
  rw [hidle] at hready
  have hsame := same_clear s alarm
  have hclear : s.clear alarm = { s with started := update s.started alarm false } := by
    exact if_neg hne
  rw [hclear] at hsame ⊢
  refine Aimed.of_same hready hsame rfl id fun other hother => ?_
  have hother' : other ≠ alarm := by
    rintro rfl
    exact hne hother
  exact (update_of_ne hother' ..).trans (h.current other hother)

theorem Sound.clear (h : s.Sound) (alarm : ι) :
    Sound { s.clear alarm with phase := .wakes (.user (some alarm)) } := by
  have hsame := same_clear s alarm
  unfold Container.clear at *
  dsimp only at *
  split_ifs at * with hcurrent
  · exact
    { nodup := h.nodup
      listed := fun other hother => h.listed other (hsame other hother).1
      small := h.small
      armed := rfl
      current := fun _ hno => by cases hno
      updated := h.updated
      called := h.called
      raised := h.raised
      daily := fun _ _ => h.daily_of_same hsame rfl fun _ => id
      ready := update_self .. }
  · refine
    { nodup := h.nodup
      listed := fun other hother => h.listed other (hsame other hother).1
      small := h.small
      armed := h.armed
      current := fun other hother => ?_
      updated := h.updated
      called := h.called
      raised := h.raised
      daily := fun _ _ => h.daily_of_same hsame rfl fun _ => id
      ready := update_self .. }
    have hne : other ≠ alarm := by
      rintro rfl
      exact hcurrent hother
    exact (update_of_ne hne ..).trans (h.current other hother)

theorem Sound.step {a : Act ι} (h : s.Sound) (hcareful : s.Careful a) (hstep : s.Step a t) :
    t.Sound := by
  unfold Step exec at hstep
  cases a with
  | tick =>
    by_cases hin : (inTime s.event (s.now + 1) && inTime s.received (s.now + 1)) = true
    · rw [if_pos hin] at hstep
      obtain ⟨hevent, hreceived⟩ := Bool.and_eq_true_iff.mp hin
      cases hstep
      refine h.tick hcareful fun r hr => ?_
      exact hr.elim (inTime_iff.mp hevent r) (inTime_iff.mp hreceived r)
    · rw [if_neg hin] at hstep
      cases hstep
  | receive =>
    dsimp only at hstep
    split_ifs at hstep with hready
    cases hstep
    exact h.receive hready.1
  | serve =>
    dsimp only at hstep
    split_ifs at hstep with hready
    cases hstep
    exact h.phase trivial
  | create alarm wktime =>
    dsimp only at hstep
    split_ifs at hstep with hready
    exact h.create hready.1 hready.2.1 hready.2.2 (some.inj hstep).symm
  | start alarm =>
    dsimp only at hstep
    split_ifs at hstep with hready hon
    · cases hstep
      exact h
    · exact h.setUp hready.1 hready.2 (eq_false_of_ne_true hon) (some.inj hstep).symm
  | stop alarm =>
    dsimp only at hstep
    split_ifs at hstep
    · cases hstep
      exact (h.clear alarm).phase trivial
    · cases hstep
      exact h
  | delete alarm =>
    dsimp only at hstep
    split_ifs at hstep with hready hcurrent
    · cases hstep
      exact h.clear alarm
    · cases hstep
      have hclear := h.clear alarm
      have hfinish : Sound (Container.finish
          { s.clear alarm with phase := .wakes (.user (some alarm)) } (.user (some alarm))) :=
        hclear.finish hclear.ready (h.aimed_clear hready.1 hcurrent)
      exact hfinish
  | goOn => exact h.goOn hcareful hstep

/-- In a run without the meetings that go wrong the RTC is armed for the alarm that comes next, and
each alarm is called once each day, in time. -/
theorem reachable_daily (h : Reachable Initial (Within Step Careful) s) : s.Kept :=
  (h.invariant (fun _ => Initial.sound) fun _ _ _ _ ih hstep =>
    Sound.step ih hstep.1 hstep.2).kept

end

instance (s : Container ι) : Decidable s.Waits := instDecidableOr

instance (s : Container (Fin 2)) : Decidable s.CallCareful := by
  unfold CallCareful
  split <;> infer_instance

instance (s : Container (Fin 2)) : Decidable s.TickCareful := instDecidableAnd

instance (s : Container (Fin 2)) (a : Act (Fin 2)) : Decidable (s.Careful a) := by
  cases a with
  | tick => exact inferInstanceAs (Decidable s.TickCareful)
  | goOn => exact inferInstanceAs (Decidable s.CallCareful)
  | receive | serve | create _ _ | start _ | stop _ | delete _ => exact .isTrue trivial

/-- Nine seconds after midnight, before any alarm. -/
def morning : Container (Fin 2) where
  now := 9
  list := []
  wktime := fun _ => 0
  started := fun _ => false
  current := none
  armed := none
  event := none
  received := none
  phase := .idle
  since := fun _ => 0
  calls := fun _ => []
  lastUpdate := none

/-- The alarm at ten seconds after midnight is started, and called. -/
def firstCalled : List (Act (Fin 2)) :=
  [.create 0 10, .start 0, .goOn, .goOn, .tick, .receive, .serve, .goOn, .goOn, .goOn]

/-- A daily alarm has its call on the first morning. -/
theorem reachable_daily_ok : ∃ s, runWithin exec Careful morning (firstCalled ++ [.tick]) = some s ∧
    s.calls 0 = [10] ∧ s.Kept := by
  have hinit : Reachable Initial (Within Step Careful) morning :=
    .start ⟨rfl, fun _ => rfl, rfl, rfl, rfl, rfl, rfl, fun _ => rfl, rfl⟩
  obtain ⟨s, hrun, hcalls⟩ : ∃ s, runWithin exec Careful morning (firstCalled ++ [.tick]) =
      some s ∧ s.calls 0 = [10] := ⟨_, rfl, rfl⟩
  exact ⟨s, hrun, hcalls, reachable_daily (hinit.runWithin hrun)⟩

/-- Another alarm is started in the second of the current one, and the RTC stays armed for the
latter, that has been called for today. -/
theorem started_in_second : ∃ s : Container (Fin 2), Reachable Initial Step s ∧
    s.phase = .idle ∧ ¬ s.Waits ∧ s.started 1 = true ∧ s.armed = some 10 ∧
      till s.now (s.wktime 1) = 10 ∧ ¬ s.Kept := by
  have hinit : Reachable Initial Step morning :=
    .start ⟨rfl, fun _ => rfl, rfl, rfl, rfl, rfl, rfl, fun _ => rfl, rfl⟩
  obtain ⟨s, hrun, hphase, hwaits, hstarted, harmed, htill, hfirst⟩ :
      ∃ s, runAll exec morning (firstCalled ++ [.create 1 20, .start 1, .goOn]) = some s ∧
        s.phase = .idle ∧ ¬ s.Waits ∧ s.started 1 = true ∧ s.armed = some 10 ∧
          till s.now (s.wktime 1) = 10 ∧ till s.now 10 = 86400 :=
    ⟨_, rfl, rfl, by decide, rfl, rfl, rfl, rfl⟩
  refine ⟨s, hinit.runAll hrun, hphase, hwaits, hstarted, harmed, htill, fun hkept => ?_⟩
  obtain ⟨alarm, -, harmed', hnext⟩ := hkept.armed hphase hwaits ⟨1, hstarted⟩
  have htime := Option.some.inj (harmed'.symm.trans harmed)
  have hle := hnext 1 hstarted
  rw [htill, htime, hfirst] at hle
  exact absurd hle (by decide)

end Container

end RtKernel.Alarm
