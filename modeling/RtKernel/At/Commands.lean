import RtKernel.At.Answered

/-!
# Commands of an AT client

The steps of `at_obj_exec_cmd` keep what the parser relies on, when it does not come between two
steps of the parser that belong together. Otherwise the parser writes to a response object that
has been freed, or the call takes a semaphore that was not released for it.
-/

open Option

namespace RtKernel.At

namespace Client

variable {c : Setup} {s t : Client}

/-- Before `client->resp` is set the parser does not work for the call. -/
theorem Owned.detached (h : s.Owned) (hphase : s.phase.attached = false)
    (hsent : s.phase.sent = false) : s.resp = none ∧ s.parser ≠ .takes ∧ s.parser.held = none := by
  have hnone : s.resp = none := by
    cases hresp : s.resp with
    | none => rfl
    | some k =>
      rw [(h.resp k hresp).2.2] at hphase
      cases hphase
  refine ⟨hnone, fun htakes => ?_, ?_⟩
  · have hset := (h.takes htakes).2
    rw [hnone] at hset
    cases hset
  · cases hheld : s.parser.held with
    | none => rfl
    | some k =>
      rw [(h.held k hheld).2.2] at hsent
      cases hsent

/-- Before the command is sent the parser does not work for the call either. -/
theorem Owned.unsent (h : s.Owned) (hearly : s.phase.early = true) :
    s.parser ≠ .takes ∧ s.parser.held = none ∧ s.fresh = false := by
  have hfresh : s.fresh = false := by
    cases hf : s.fresh with
    | false => rfl
    | true =>
      rw [h.fresh hf] at hearly
      cases hearly
  refine ⟨fun htakes => ?_, ?_, hfresh⟩
  · have hset := (h.takes htakes).1
    rw [hfresh] at hset
    cases hset
  · cases hheld : s.parser.held with
    | none => rfl
    | some k =>
      rw [Phase.early_of_sent (h.held k hheld).2.2] at hearly
      cases hearly

theorem Owned.goOn (h : s.Owned) (hparser : t.parser = s.parser) (hcalls : t.calls = s.calls)
    (hobj : t.obj = s.obj)
    (hresp : ∀ k, t.resp = some k → s.resp = some k ∧ t.phase.attached = true)
    (hfresh : t.fresh = true → s.fresh = true)
    (htakes : s.parser = .takes → t.fresh = true ∧ t.resp.isSome = true)
    (hheld : s.parser.held ≠ none → t.phase.sent = true)
    (hearly : t.phase.early = true → s.phase.early = true)
    (hreset : t.phase = .sends → t.respNotice = 0 ∧ s.parser ≠ .clears ∧ s.parser ≠ .releases) :
    t.Owned where
  resp := fun k hk => by
    obtain ⟨hset, hattached⟩ := hresp k hk
    obtain ⟨hcall, hsome, -⟩ := h.resp k hset
    rw [hcalls, hobj]
    exact ⟨hcall, hsome, hattached⟩
  fresh := fun hf => by
    have hlate := h.fresh (hfresh hf)
    rw [Bool.eq_false_iff] at hlate ⊢
    exact fun hno => hlate (hearly hno)
  takes := by
    rw [hparser]
    exact htakes
  held := fun k hk => by
    rw [hparser] at hk
    obtain ⟨hcall, hsome, -⟩ := h.held k hk
    rw [hcalls, hobj]
    exact ⟨hcall, hsome, hheld (by rw [hk]; exact some_ne_none k)⟩
  zeroed := by
    rw [hobj]
    exact fun he => h.zeroed (hearly he)
  reset := by
    rw [hparser]
    exact hreset

section

variable (h : s.Sound c) (hstep : s.call = some t) {result : Result}
include h hstep

/-- `at_resp_init`. -/
theorem Sound.callBegun (hphase : s.phase = .begun) : t.Sound c := by
  unfold Client.call at hstep
  rw [hphase] at hstep
  cases hstep
  obtain ⟨hresp, htakes, hheld⟩ := h.owned.detached (by rw [hphase]; rfl) (by rw [hphase]; rfl)
  refine ⟨h.fault, h.reads.same rfl rfl id, ?_, fun _ _ => trivial⟩
  exact
    { resp := fun k hk => by
        rw [hresp] at hk
        cases hk
      fresh := nofun
      takes := fun hno => absurd hno htakes
      held := fun k hno => by
        rw [hheld] at hno
        cases hno
      zeroed := fun _ resp hobj => by
        obtain ⟨old, -, rfl⟩ := map_eq_some_iff.mp hobj
        exact ⟨rfl, rfl⟩
      reset := fun hno => by cases hno }

/-- The response is made known to the parser. -/
theorem Sound.callAttaches (hphase : s.phase = .attaches) : t.Sound c := by
  unfold Client.call at hstep
  rw [hphase] at hstep
  cases hstep
  have hearly : s.phase.early = true := by
    rw [hphase]
    rfl
  obtain ⟨htakes, hheld, hfresh⟩ := h.owned.unsent hearly
  refine ⟨h.fault, h.reads.same rfl rfl id, ?_, fun _ _ => trivial⟩
  exact
    { resp := fun k hk => by
        obtain ⟨old, hold, rfl⟩ := map_eq_some_iff.mp hk
        exact ⟨rfl, isSome_of_eq_some hold, rfl⟩
      fresh := fun hno => by
        rw [hfresh] at hno
        cases hno
      takes := fun hno => absurd hno htakes
      held := fun k hno => by
        rw [hheld] at hno
        cases hno
      zeroed := fun _ => h.owned.zeroed hearly
      reset := fun hno => by cases hno }

/-- The semaphore is reset, which the parser must not be about to release. -/
theorem Sound.callResets (hphase : s.phase = .resets)
    (hquiet : s.parser ≠ .clears ∧ s.parser ≠ .releases) : t.Sound c := by
  unfold Client.call at hstep
  rw [hphase] at hstep
  cases hstep
  have hearly : s.phase.early = true := by
    rw [hphase]
    rfl
  obtain ⟨htakes, hheld, -⟩ := h.owned.unsent hearly
  refine ⟨h.fault, h.reads.same rfl rfl id, ?_, fun _ _ => trivial⟩
  exact h.owned.goOn rfl rfl rfl (fun k hk => ⟨hk, rfl⟩) id (fun hno => absurd hno htakes)
    (fun hno => absurd hheld hno) (fun _ => hearly) fun _ => ⟨rfl, hquiet⟩

/-- The command is sent, with an empty response. -/
theorem Sound.callSends (hphase : s.phase = .sends) : t.Sound c := by
  unfold Client.call at hstep
  rw [hphase] at hstep
  cases hstep
  have hearly : s.phase.early = true := by
    rw [hphase]
    rfl
  obtain ⟨htakes, hheld, -⟩ := h.owned.unsent hearly
  obtain ⟨hzero, hclears, hreleases⟩ := h.owned.reset hphase
  have hphases : ∀ phase, (if s.obj.isSome then Phase.waits else .clears .eok) = phase →
      phase.attached = true ∧ phase.early = false ∧ phase ≠ .sends := by
    rintro phase rfl
    split_ifs
    all_goals exact ⟨rfl, rfl, nofun⟩
  obtain ⟨hattached, hlate, hnot⟩ := hphases _ rfl
  refine ⟨h.fault, h.reads.same rfl rfl id, ?_, fun resp hresp => ?_⟩
  · exact h.owned.goOn rfl rfl rfl (fun k hk => ⟨hk, hattached⟩) nofun
      (fun hno => absurd hno htakes) (fun hno => absurd hheld hno)
      (fun hno => Bool.noConfusion (hlate.symm.trans hno)) fun hno => absurd hno hnot
  · obtain ⟨hlen, hcounts⟩ := h.owned.zeroed hearly resp hresp
    rw [if_pos (isSome_of_eq_some hresp)]
    refine .collects hzero (fun _ => ?_) ⟨hclears, hreleases⟩
    have hcopied : Copied c resp [] := ⟨⟨hcounts, hlen, List.nil_prefix⟩, rfl⟩
    unfold Collects
    cases hparser : s.parser with
    | reading | line => exact fun _ => hcopied
    | takes => exact absurd hparser htakes
    | copies k | checks k =>
      rw [hparser] at hheld
      cases hheld
    | clears => exact absurd hparser hclears
    | releases => exact absurd hparser hreleases

/-- The semaphore is taken, which only the end of the response releases. -/
theorem Sound.callWaits (hphase : s.phase = .waits) : t.Sound c := by
  unfold Client.call at hstep
  rw [hphase] at hstep
  dsimp only at hstep
  split_ifs at hstep with hpos
  cases hstep
  refine ⟨h.fault, h.reads.same rfl rfl id, ?_, fun resp hresp => ?_⟩
  · refine h.owned.goOn rfl rfl rfl (fun k hk => ⟨hk, rfl⟩) id h.owned.takes (fun _ => rfl)
      (fun hno => ?_) fun hno => ?_
    all_goals cases hno
  · have hcourse := h.course resp hresp
    unfold Course at hcourse
    rw [hphase] at hcourse
    cases hcourse with
    | collects hzero _ _ | ends hzero _ _ => exact absurd hzero (Nat.ne_of_gt hpos)
    | ended hout hdone => exact ⟨hout, hdone⟩

theorem Sound.callTaken (hphase : s.phase = .taken) : t.Sound c := by
  unfold Client.call at hstep
  rw [hphase] at hstep
  cases hstep
  refine ⟨h.fault, h.reads.same rfl rfl id, ?_, fun resp hresp => ?_⟩
  · refine h.owned.goOn rfl rfl rfl (fun k hk => ⟨hk, rfl⟩) id h.owned.takes (fun _ => rfl)
      (fun hno => ?_) fun hno => ?_
    all_goals cases hno
  · have hcourse := h.course resp hresp
    unfold Course at hcourse ⊢
    rw [hphase] at hcourse
    split_ifs with hok
    · exact ⟨hcourse.1 hok, hcourse.2⟩
    · trivial

/-- `client->resp` is cleared, which the parser must not have looked at already. -/
theorem Sound.callClears (hphase : s.phase = .clears result)
    (hquiet : s.parser ≠ .takes) : t.Sound c := by
  unfold Client.call at hstep
  rw [hphase] at hstep
  cases hstep
  refine ⟨h.fault, h.reads.same rfl rfl id, ?_, fun resp hresp => ?_⟩
  · refine h.owned.goOn rfl rfl rfl (fun k hno => ?_) id (fun hno => absurd hno hquiet)
      (fun _ => rfl) (fun hno => ?_) fun hno => ?_
    all_goals cases hno
  · have hcourse := h.course resp hresp
    unfold Course at hcourse ⊢
    rw [hphase] at hcourse
    cases result with
    | eok => exact ⟨hcourse.1, rfl, hcourse.2.2⟩
    | error | etimeout => trivial

/-- The call returns, and its response may be deleted. -/
theorem Sound.callLeaves (hphase : s.phase = .leaves result)
    (hquiet : s.parser.held = none) : t.Sound c := by
  unfold Client.call at hstep
  rw [hphase] at hstep
  cases hstep
  refine ⟨h.fault, h.reads.same rfl rfl id, ?_, fun _ _ => trivial⟩
  have hnone : s.resp = none := by
    cases hresp : s.resp with
    | none => rfl
    | some k =>
      have hno := (h.owned.resp k hresp).2.2
      rw [hphase] at hno
      cases hno
  refine h.owned.goOn rfl rfl rfl (fun k hno => ?_) id (fun htakes => ?_)
    (fun hno => absurd hquiet hno) (fun hno => ?_) fun hno => ?_
  · have hset := hnone.symm.trans hno
    cases hset
  · have hset := (h.owned.takes htakes).2
    rw [hnone] at hset
    cases hset
  · cases hno
  · cases hno

end

theorem Sound.call (h : s.Sound c) (hcareful : s.CallCareful) (hstep : s.call = some t) :
    t.Sound c := by
  unfold CallCareful at hcareful
  cases hphase : s.phase with
  | idle =>
    unfold Client.call at hstep
    rw [hphase] at hstep
    cases hstep
  | begun => exact h.callBegun hstep hphase
  | attaches => exact h.callAttaches hstep hphase
  | resets =>
    rw [hphase] at hcareful
    exact h.callResets hstep hphase hcareful
  | sends => exact h.callSends hstep hphase
  | waits => exact h.callWaits hstep hphase
  | taken => exact h.callTaken hstep hphase
  | clears result =>
    rw [hphase] at hcareful
    exact h.callClears hstep hphase hcareful
  | leaves result =>
    rw [hphase] at hcareful
    exact h.callLeaves hstep hphase hcareful

theorem Sound.step {a : Act} (h : s.Sound c) (hcareful : s.Careful c a) (hstep : Step c s a t) :
    t.Sound c := by
  cases a with
  | getchar ch =>
    simp only [Step, exec, ite_none_right_eq_some] at hstep
    obtain ⟨hparser, hgetchar⟩ := hstep
    exact some.inj hgetchar ▸ h.getchar hparser ch
  | parser => exact h.parse hcareful hstep
  | begin obj =>
    simp only [Step, exec, ite_none_right_eq_some] at hstep
    obtain ⟨hphase, hbegin⟩ := hstep
    cases hbegin
    obtain ⟨hresp, htakes, hheld⟩ := h.owned.detached (by rw [hphase]; rfl) (by rw [hphase]; rfl)
    refine ⟨h.fault, h.reads.same rfl rfl id, ?_, fun _ _ => trivial⟩
    exact
      { resp := fun k hk => by
          rw [hresp] at hk
          cases hk
        fresh := fun _ => rfl
        takes := fun hno => absurd hno htakes
        held := fun k hno => by
          rw [hheld] at hno
          cases hno
        zeroed := nofun
        reset := fun hno => by cases hno }
  | caller => exact h.call hcareful hstep
  | timeout =>
    simp only [Step, exec, ite_none_right_eq_some] at hstep
    obtain ⟨⟨hphase, -⟩, htimeout⟩ := hstep
    cases htimeout
    refine ⟨h.fault, h.reads.same rfl rfl id, ?_, fun _ _ => trivial⟩
    refine h.owned.goOn rfl rfl rfl (fun k hk => ⟨hk, rfl⟩) id h.owned.takes (fun _ => rfl)
      (fun hno => ?_) fun hno => ?_
    all_goals cases hno

theorem Sound.kept (h : s.Sound c) : s.Kept c where
  fault := h.fault
  answered := fun hphase resp hresp => by
    have hcourse := h.course resp hresp
    unfold Course at hcourse
    rw [hphase] at hcourse
    exact hcourse.1

/-- In a run of careful steps the parser accesses response objects only while their calls are
there and inside their buffers, and a call that returns `RT_EOK` has all lines of its response. -/
theorem reachable_responseKept (h : Reachable (· = fresh₀) (Within (Step c) (Careful c)) s) :
    s.Kept c := by
  refine Sound.kept (h.invariant (fun _ h₀ => h₀ ▸ sound_fresh₀) ?_)
  rintro s a t - hsound ⟨hcareful, hstep⟩
  exact hsound.step hcareful hstep

instance (s : Client) (resp : AtResponse) : Decidable (s.Fits c resp) := by
  unfold Fits
  infer_instance

instance (s : Client) (a : Act) : Decidable (s.Careful c a) := by
  cases a with
  | parser =>
    unfold Careful ParserCareful
    dsimp only
    split <;> infer_instance
  | caller =>
    unfold Careful CallCareful
    dsimp only
    split <;> infer_instance
  | getchar _ | begin _ | timeout => exact .isTrue trivial

/-- A receive buffer for 8 characters, without an end sign and without URCs. -/
def plain : Setup := { endSign := 0, recvBufsz := 8, urcTable := [] }

/-- A call with a response buffer of this size sends its command. -/
def command (bufSize : Nat) : List Act :=
  .begin (some { buf := List.replicate bufSize 0, bufLen := 0, lineNum := 0, lineCounts := 0 }) ::
    List.replicate 4 .caller

/-- A line comes in. -/
def incoming (line : List UInt8) : List Act := (line ++ [13, 10]).map .getchar

/-- The parser takes `A` and `OK` for a response, and the call returns. -/
def answeredRun : List Act :=
  command 16 ++ incoming [65] ++ List.replicate 4 .parser ++ incoming [79, 75] ++
    List.replicate 6 .parser ++ List.replicate 3 .caller

/-- A command is answered by one line and `OK`, and the call returns `RT_EOK`. -/
theorem reachable_responseKept_ok : ∃ s,
    runWithin (exec plain) (Careful plain) fresh₀ answeredRun = some s ∧
      s.phase = .leaves .eok ∧ s.Kept plain := by
  have hinit : Reachable (· = fresh₀) (Within (Step plain) (Careful plain)) fresh₀ := .start rfl
  obtain ⟨s, hrun, hphase⟩ : ∃ s, runWithin (exec plain) (Careful plain) fresh₀ answeredRun =
      some s ∧ s.phase = .leaves .eok := ⟨_, rfl, rfl⟩
  exact ⟨s, hrun, hphase, reachable_responseKept (hinit.runWithin hrun)⟩

/-- The call times out and returns while the parser is about to copy a line. -/
def freedRun : List Act :=
  command 16 ++ incoming [65] ++ [.parser, .parser, .timeout, .caller, .caller, .parser]

/-- The second line does not go into the response, and the end line is taken for its success. -/
def fullRun : List Act :=
  command 5 ++ incoming [65, 65] ++ List.replicate 4 .parser ++ incoming [66, 66] ++
    List.replicate 4 .parser ++ incoming [79, 75] ++ List.replicate 6 .parser ++
    List.replicate 3 .caller

/-- A response object is accessed that may have been freed, and a response lacks a line. -/
theorem freed_and_full : ∃ s₁ s₂ : Client,
    (Reachable (· = fresh₀) (Step plain) s₁ ∧ s₁.fault = true) ∧
      Reachable (· = fresh₀) (Step plain) s₂ ∧ s₂.phase = .leaves .eok ∧ ¬ s₂.Kept plain := by
  have hinit : Reachable (· = fresh₀) (Step plain) fresh₀ := .start rfl
  obtain ⟨s₁, hfreed, hfault⟩ : ∃ s₁, runAll (exec plain) fresh₀ freedRun = some s₁ ∧
      s₁.fault = true := ⟨_, rfl, rfl⟩
  obtain ⟨s₂, hfull, hphase, resp, hresp, hcounts, lines, hanswer, hlength⟩ :
      ∃ s₂, runAll (exec plain) fresh₀ fullRun = some s₂ ∧ s₂.phase = .leaves .eok ∧
        ∃ resp, s₂.obj = some resp ∧ resp.lineCounts = 1 ∧
          ∃ lines, plain.answer resp.lineNum 0 s₂.log = some lines ∧ lines.length = 3 :=
    ⟨_, rfl, rfl, _, rfl, rfl, _, rfl, rfl⟩
  refine ⟨s₁, s₂, ⟨hinit.runAll hfreed, hfault⟩, hinit.runAll hfull, hphase, fun hkept => ?_⟩
  obtain ⟨lines', hanswer', hholds⟩ := hkept.answered hphase resp hresp
  obtain rfl := Option.some.inj (hanswer.symm.trans hanswer')
  have hno := hholds.lineCounts
  omega

end Client

end RtKernel.At
