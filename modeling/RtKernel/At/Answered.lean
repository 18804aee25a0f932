import RtKernel.At.Client

/-!
# What a response holds

In a run without the steps that go wrong the parser has copied just the lines since the command was
sent, and the call gets the semaphore only for them.
-/

open List Option

namespace RtKernel.At

variable {c : Setup} {s t : Client} {resp : AtResponse} {line front rest : List UInt8}
  {lines lines' : List (List UInt8)} {lineNum n k : Nat} {ch : UInt8}

/-- What has been copied to a response. -/
structure AtResponse.Stored (resp : AtResponse) (lines : List (List UInt8)) : Prop where
  lineCounts : resp.lineCounts = lines.length
  bufLen : resp.bufLen = (texts lines).length
  buf : texts lines <+: resp.buf

theorem texts_concat (lines : List (List UInt8)) (line : List UInt8) :
    texts (lines ++ [line]) = texts lines ++ terminated line := by
  rw [texts_append]
  exact congrArg _ (append_nil _)

/-- A line that fits is copied behind the ones before. -/
theorem AtResponse.Stored.copy (h : resp.Stored lines) (hline : line ≠ [])
    (hfits : (texts (lines ++ [line])).length < resp.buf.length) :
    resp.bufLen + line.length < resp.buf.length ∧
      ∃ buf, Cells.writeBlock resp.buf resp.bufLen (terminated line) = some buf ∧
        AtResponse.Stored { resp with
          buf := buf, bufLen := resp.bufLen + line.length
          lineCounts := resp.lineCounts + 1 } (lines ++ [line]) := by
  obtain ⟨rest, hrest⟩ := h.buf
  have hlength := length_terminated hline
  rw [texts_concat, length_append, hlength, ← h.bufLen] at hfits
  refine ⟨hfits, _, if_pos (by rw [hlength]; exact hfits.le), ?_, ?_, ?_⟩
  · rw [length_append, length_singleton, ← h.lineCounts]
  · rw [texts_concat, length_append, hlength, ← h.bufLen]
  · have htake : resp.buf.take resp.bufLen = texts lines := by
      rw [← hrest, h.bufLen, take_left]
    rw [texts_concat, htake]
    exact prefix_append _ _

theorem AtResponse.Stored.holds (h : resp.Stored lines)
    (hzero : ∀ line ∈ lines, (0 : UInt8) ∉ line.dropLast) : resp.Holds lines := by
  obtain ⟨rest, hrest⟩ := h.buf
  exact ⟨h.lineCounts, h.buf, fun n hn => atRespGetLine_texts hrest.symm h.lineCounts hzero hn⟩

namespace Setup

/-- One more line behind some that do not end the response. -/
theorem answer_concat (h : c.answer lineNum n lines = none) (line : List UInt8) :
    c.answer lineNum n (lines ++ [line]) =
      if (c.checkResult lineNum (n + lines.length + 1) line).isSome then some (lines ++ [line])
      else none := by
  induction lines generalizing n with
  | nil => rfl
  | cons first lines ih =>
    rw [answer] at h
    split_ifs at h with hfirst
    have hrest := ih (map_eq_none_iff.mp h)
    rw [cons_append, answer, if_neg hfirst, hrest, length_cons, Nat.add_assoc n 1,
      Nat.add_comm 1]
    split_ifs <;> rfl

/-- What comes behind the end line is no part of the answer. -/
theorem answer_append (h : c.answer lineNum n lines = some lines') (more : List (List UInt8)) :
    c.answer lineNum n (lines ++ more) = some lines' := by
  induction lines generalizing n lines' with
  | nil => cases h
  | cons first lines ih =>
    rw [cons_append, answer]
    rw [answer] at h
    split_ifs at h ⊢ with hfirst
    · exact h
    · obtain ⟨tail, htail, hcons⟩ := map_eq_some_iff.mp h
      rw [ih htail, ← hcons]
      rfl

end Setup

namespace Client

theorem Answered.append (h : s.Answered c resp) (hlog : ∃ more, t.log = s.log ++ more) :
    t.Answered c resp := by
  obtain ⟨lines, hanswer, hholds⟩ := h
  obtain ⟨more, hmore⟩ := hlog
  exact ⟨lines, hmore ▸ Setup.answer_append hanswer more, hholds⟩

theorem Fits.of_append (h : t.Fits c resp) (hlog : ∃ more, t.log = s.log ++ more) :
    s.Fits c resp := by
  obtain ⟨hlines, hlength⟩ := h
  obtain ⟨more, hmore⟩ := hlog
  rw [hmore] at hlines hlength
  rw [texts_append, length_append] at hlength
  exact ⟨fun line hline => hlines line (mem_append_left _ hline), by omega⟩

/-- The line that is read, as it has come in. -/
structure Reads (c : Setup) (s : Client) : Prop where
  whole : s.line.isFull = false → s.text = s.line.buf
  full : s.line.isFull = true → c.recvBufsz < s.text.length
  nonempty : s.parser ≠ .reading → s.line.buf ≠ []

end Client

/-- `client->resp` may be set. -/
def Phase.attached : Phase → Bool
  | .resets | .sends | .waits | .taken | .clears _ => true
  | .idle | .begun | .attaches | .leaves _ => false

/-- The response is empty, and the command has not been sent. -/
def Phase.early : Phase → Bool
  | .attaches | .resets | .sends => true
  | .idle | .begun | .waits | .taken | .clears _ | .leaves _ => false

theorem Phase.sent_of_attached {phase : Phase} (hattached : phase.attached = true)
    (hearly : phase.early = false) : phase.sent = true := by
  cases phase <;> first | rfl | exact absurd hattached (by decide) | exact absurd hearly (by decide)

theorem Phase.early_of_sent {phase : Phase} (h : phase.sent = true) : phase.early = false := by
  cases phase <;> first | rfl | cases h

namespace Client

/-- Who may access the response object of the call. -/
structure Owned (s : Client) : Prop where
  resp : ∀ k, s.resp = some k → k = s.calls ∧ s.obj.isSome = true ∧ s.phase.attached = true
  fresh : s.fresh = true → s.phase.early = false
  takes : s.parser = .takes → s.fresh = true ∧ s.resp.isSome = true
  held : ∀ k, s.parser.held = some k →
    k = s.calls ∧ s.obj.isSome = true ∧ s.phase.sent = true
  zeroed : s.phase.early = true → ∀ resp ∈ s.obj, resp.bufLen = 0 ∧ resp.lineCounts = 0
  reset : s.phase = .sends → s.respNotice = 0 ∧ s.parser ≠ .clears ∧ s.parser ≠ .releases

/-- Just these lines have been copied, and none of them ends the response. -/
def Copied (c : Setup) (resp : AtResponse) (lines : List (List UInt8)) : Prop :=
  resp.Stored lines ∧ c.answer resp.lineNum 0 lines = none

/-- All but the last line have been copied. -/
def Pending (c : Setup) (s : Client) (resp : AtResponse) : Prop :=
  ∃ lines, s.log = lines ++ [s.line.buf] ∧ Copied c resp lines

/-- What has been copied before the end line. -/
def Collects (c : Setup) (s : Client) (resp : AtResponse) : Prop :=
  match s.parser with
  | .reading => s.resp.isSome = true → Copied c resp s.log
  | .line => s.resp.isSome = true → if s.fresh = true then s.Pending c resp else Copied c resp s.log
  | .takes | .copies _ => s.Pending c resp
  | .checks _ => ∃ lines, s.log = lines ++ [s.line.buf] ∧ resp.Stored s.log ∧
      c.answer resp.lineNum 0 lines = none
  | .clears | .releases => False

/-- The parser does not work for the call any more. -/
def Done (s : Client) : Prop := s.resp = none ∧ (s.parser = .reading ∨ s.parser = .line)

/-- The status says of the response what is so. -/
def Outcome (c : Setup) (s : Client) (resp : AtResponse) : Prop :=
  s.respStatus = .ok → s.Answered c resp

/-- The wait of a call: lines are collected, the parser is about to release the semaphore, or it
has. -/
inductive Waits (c : Setup) (s : Client) (resp : AtResponse) : Prop
  | collects (hnotice : s.respNotice = 0) (h : s.Fits c resp → s.Collects c resp)
      (hparser : s.parser ≠ .clears ∧ s.parser ≠ .releases)
  | ends (hnotice : s.respNotice = 0) (h : s.Outcome c resp)
      (hparser : s.parser = .clears ∨ s.parser = .releases ∧ s.resp = none)
  | ended (h : s.Outcome c resp) (hdone : s.Done)

/-- What the response is to the call. -/
def Course (c : Setup) (s : Client) (resp : AtResponse) : Prop :=
  match s.phase with
  | .waits => s.Waits c resp
  | .taken => s.Outcome c resp ∧ s.Done
  | .clears .eok | .leaves .eok => s.Answered c resp ∧ s.Done
  | .idle | .begun | .attaches | .resets | .sends | .clears _ | .leaves _ => True

structure Sound (c : Setup) (s : Client) : Prop where
  fault : s.fault = false
  reads : s.Reads c
  owned : s.Owned
  course : ∀ resp ∈ s.obj, s.Course c resp

theorem sound_fresh₀ : fresh₀.Sound c where
  fault := rfl
  reads := ⟨fun _ => rfl, fun hno => (by cases hno), fun hno => absurd rfl hno⟩
  owned :=
    { resp := fun _ hno => (by cases hno)
      fresh := fun hno => (by cases hno)
      takes := fun hno => (by cases hno)
      held := fun _ hno => (by cases hno)
      zeroed := fun hno => (by cases hno)
      reset := fun hno => (by cases hno) }
  course := fun _ hno => (by cases hno)

/-- A character more is in the line, whether it went into the buffer or not. -/
theorem Reads.store (h : s.Reads c) (ch : UInt8) :
    ((c.store s.line ch).isFull = false → s.text ++ [ch] = (c.store s.line ch).buf) ∧
      ((c.store s.line ch).isFull = true → c.recvBufsz < (s.text ++ [ch]).length) ∧
      ((c.store s.line ch).isFull = false → (c.store s.line ch).buf ≠ []) := by
  unfold Setup.store
  rw [length_append, length_singleton]
  split_ifs with hroom
  · refine ⟨fun hno => by rw [h.whole hno], fun hfull => ?_, fun _ => concat_ne_nil _ _⟩
    exact Nat.lt_succ_of_lt (h.full hfull)
  · refine ⟨fun hno => (by cases hno), fun _ => ?_, fun hno => (by cases hno)⟩
    cases hfull : s.line.isFull with
    | true => exact Nat.lt_succ_of_lt (h.full hfull)
    | false =>
      rw [h.whole hfull]
      omega

theorem Owned.move (h : s.Owned) (hphase : t.phase = s.phase) (hcalls : t.calls = s.calls)
    (hobj : t.obj.isSome = s.obj.isSome) (hsame : t.obj = s.obj ∨ s.phase.sent = true)
    (hresp : ∀ k, t.resp = some k → s.resp = some k)
    (hfresh : t.fresh = true → s.fresh = true ∨ s.phase.sent = true)
    (htakes : t.parser = .takes → t.fresh = true ∧ t.resp.isSome = true)
    (hheld : ∀ k, t.parser.held = some k →
      s.parser.held = some k ∨ s.parser = .takes ∧ s.resp = some k)
    (hreset : s.phase = .sends → t.respNotice = 0 ∧ t.parser ≠ .clears ∧ t.parser ≠ .releases) :
    t.Owned where
  resp := fun k hk => by
    rw [hphase, hcalls, hobj]
    exact h.resp k (hresp k hk)
  fresh := fun hf => by
    rw [hphase]
    exact (hfresh hf).elim h.fresh Phase.early_of_sent
  takes := htakes
  held := fun k hk => by
    rw [hphase, hcalls, hobj]
    rcases hheld k hk with hold | ⟨htake, hset⟩
    · exact h.held k hold
    · obtain ⟨hcall, hsome, hattached⟩ := h.resp k hset
      exact ⟨hcall, hsome, Phase.sent_of_attached hattached (h.fresh (h.takes htake).1)⟩
  zeroed := fun hearly => by
    rw [hphase] at hearly
    rcases hsame with hsame | hsent
    · rw [hsame]
      exact h.zeroed hearly
    · rw [Phase.early_of_sent hsent] at hearly
      cases hearly
  reset := fun hsends => hreset (hphase ▸ hsends)

theorem Owned.read (h : s.Owned) (hpos : t.parser = .reading ∨ t.parser = .line)
    (hphase : t.phase = s.phase) (hcalls : t.calls = s.calls) (hobj : t.obj = s.obj)
    (hresp : t.resp = s.resp) (hnotice : t.respNotice = s.respNotice)
    (hfresh : t.fresh = true → s.fresh = true ∨ s.phase.sent = true) : t.Owned := by
  refine h.move hphase hcalls (by rw [hobj]) (.inl hobj) (fun k hk => hresp ▸ hk) hfresh ?_ ?_
    fun hsends => ⟨hnotice.trans (h.reset hsends).1, ?_⟩
  all_goals rcases hpos with hpos | hpos
  all_goals rw [hpos]
  · exact nofun
  · exact nofun
  · exact fun k hno => by cases hno
  · exact fun k hno => by cases hno
  · exact ⟨nofun, nofun⟩
  · exact ⟨nofun, nofun⟩

theorem Reads.of_empty (hline : t.line = .empty) (htext : t.text = [])
    (hparser : t.parser = .reading) : t.Reads c where
  whole := fun _ => by
    rw [htext, hline]
    rfl
  full := fun hno => by
    rw [hline] at hno
    cases hno
  nonempty := fun hno => absurd hparser hno

/-- The line is as before. -/
theorem Reads.same (h : s.Reads c) (hline : t.line = s.line) (htext : t.text = s.text)
    (hparser : t.parser ≠ .reading → s.parser ≠ .reading) : t.Reads c where
  whole := by
    rw [hline, htext]
    exact h.whole
  full := by
    rw [hline, htext]
    exact h.full
  nonempty := fun hne => by
    rw [hline]
    exact h.nonempty (hparser hne)

variable {resp' : AtResponse}

/-- What the parser does is the course of the response when the wait goes on with it. -/
theorem Course.move (h : s.Course c resp) (hphase : t.phase = s.phase)
    (hwaits : s.phase = .waits → s.Waits c resp → t.Waits c resp')
    (hdone : s.Done → t.Done ∧ t.respStatus = s.respStatus ∧ resp' = resp)
    (hlog : ∃ more, t.log = s.log ++ more) : t.Course c resp' := by
  have houtcome : s.Done → s.Outcome c resp → t.Outcome c resp' := by
    intro hd hout hok
    obtain ⟨-, hstatus, rfl⟩ := hdone hd
    exact (hout (hstatus.symm.trans hok)).append hlog
  have hanswered : s.Done → s.Answered c resp → t.Answered c resp' := by
    intro hd hans
    obtain ⟨-, -, rfl⟩ := hdone hd
    exact hans.append hlog
  unfold Course at h ⊢
  rw [hphase]
  split at h
  · next hw => exact hwaits hw h
  · exact ⟨houtcome h.2 h.1, (hdone h.2).1⟩
  · exact ⟨hanswered h.2 h.1, (hdone h.2).1⟩
  · exact ⟨hanswered h.2 h.1, (hdone h.2).1⟩
  all_goals trivial

theorem Waits.collecting (h : s.Waits c resp) (hclears : s.parser ≠ .clears)
    (hreleases : s.parser ≠ .releases) :
    s.respNotice = 0 ∧ (s.Fits c resp → s.Collects c resp) ∨ s.Outcome c resp ∧ s.Done := by
  cases h with
  | collects hzero hold _ => exact .inl ⟨hzero, hold⟩
  | ends _ _ hends =>
    obtain hno | ⟨hno, -⟩ := hends
    · exact absurd hno hclears
    · exact absurd hno hreleases
  | ended hout hdone => exact .inr ⟨hout, hdone⟩

/-- The parser works for the call when it has found a response. -/
theorem not_done (h : s.parser ≠ .reading ∧ s.parser ≠ .line) : ¬ s.Done := by
  rintro ⟨-, hno | hno⟩
  · exact h.1 hno
  · exact h.2 hno

/-- The same while the parser works for the call. -/
theorem Waits.working (h : s.Waits c resp) (hne : s.parser ≠ .reading ∧ s.parser ≠ .line)
    (hends : s.parser ≠ .clears ∧ s.parser ≠ .releases) :
    s.respNotice = 0 ∧ (s.Fits c resp → s.Collects c resp) :=
  (h.collecting hends.1 hends.2).resolve_right fun hright => not_done hne hright.2

theorem Course.turn (h : s.Course c resp)
    (hne : s.parser ≠ .reading ∧ s.parser ≠ .line) (hphase : t.phase = s.phase)
    (hlog : t.log = s.log) (hwaits : s.Waits c resp → t.Waits c resp') : t.Course c resp' :=
  h.move hphase (fun _ => hwaits) (fun hd => absurd hd (not_done hne))
    ⟨[], hlog.trans (append_nil _).symm⟩

/-- While a line is read the parser does not touch the response. -/
theorem Waits.read (h : s.Waits c resp) (hparser : s.parser = .reading)
    (hpos : t.parser = .reading ∨ t.parser = .line) (hresp : t.resp = s.resp)
    (hnotice : t.respNotice = s.respNotice) (hstatus : t.respStatus = s.respStatus)
    (hlog : ∃ more, t.log = s.log ++ more)
    (hcollects : t.Fits c resp → (s.resp.isSome = true → Copied c resp s.log) →
      t.Collects c resp) : t.Waits c resp := by
  obtain ⟨hzero, hold⟩ | ⟨hout, hdone⟩ := h.collecting (hparser.trans_ne (by decide))
    (hparser.trans_ne (by decide))
  · refine .collects (hnotice.trans hzero) (fun hfits => hcollects hfits ?_) ?_
    · have hcopied := hold (hfits.of_append hlog)
      unfold Collects at hcopied
      rw [hparser] at hcopied
      exact hcopied
    · rcases hpos with hpos | hpos
      all_goals exact ⟨hpos.trans_ne (by decide), hpos.trans_ne (by decide)⟩
  · refine .ended (fun hok => ?_) ⟨hresp.trans hdone.1, hpos⟩
    exact (hout (hstatus.symm.trans hok)).append hlog

/-- A line goes on, is given up, is a URC, or is there. -/
theorem Sound.getchar (h : s.Sound c) (hparser : s.parser = .reading) (ch : UInt8) :
    (s.getchar c ch).Sound c := by
  obtain ⟨hwhole, hfull, hnonempty⟩ := h.reads.store ch
  have hsame : ∃ more, s.log = s.log ++ more := ⟨[], (append_nil _).symm⟩
  have hgrown : ∃ more, s.log ++ [s.text ++ [ch]] = s.log ++ more := ⟨_, rfl⟩
  unfold Client.getchar
  dsimp only
  split_ifs with hends hlong hurc
  · refine ⟨h.fault, ⟨hwhole, hfull, fun hno => absurd hparser hno⟩, ?_, fun resp hresp => ?_⟩
    · exact h.owned.read (.inl hparser) rfl rfl rfl rfl rfl .inl
    · refine (h.course resp hresp).move rfl (fun _ hw => ?_)
        (fun hd => ⟨⟨hd.1, .inl hparser⟩, rfl, rfl⟩) hsame
      refine hw.read hparser (.inl hparser) rfl rfl rfl hsame fun _ hold => ?_
      simp only [hparser]
      exact hold
  · refine ⟨h.fault, .of_empty rfl rfl rfl, ?_, fun resp hresp => ?_⟩
    · exact h.owned.read (.inl rfl) rfl rfl rfl rfl rfl .inl
    · refine (h.course resp hresp).move rfl (fun _ hw => ?_)
        (fun hd => ⟨⟨hd.1, .inl rfl⟩, rfl, rfl⟩) hgrown
      refine hw.read hparser (.inl rfl) rfl rfl rfl hgrown fun hfits _ => ?_
      -- a line that is given up is longer than the buffer
      have hle := (hfits.1 (s.text ++ [ch]) (mem_append_right _ (mem_singleton_self _))).1
      exact absurd (hfull hlong) (Nat.not_lt_of_le hle)
  · refine ⟨h.fault, .of_empty rfl rfl rfl, ?_, fun resp hresp => ?_⟩
    · exact h.owned.read (.inl rfl) rfl rfl rfl rfl rfl .inl
    · refine (h.course resp hresp).move rfl (fun _ hw => ?_)
        (fun hd => ⟨⟨hd.1, .inl rfl⟩, rfl, rfl⟩) hsame
      exact hw.read hparser (.inl rfl) rfl rfl rfl hsame fun _ hold => hold
  · have hshort : (c.store s.line ch).isFull = false := Bool.eq_false_iff.mpr hlong
    refine ⟨h.fault, ⟨hwhole, hfull, fun _ => hnonempty hshort⟩, ?_, fun resp hresp => ?_⟩
    · exact h.owned.read (.inr rfl) rfl rfl rfl rfl rfl .inr
    · refine (h.course resp hresp).move rfl (fun hwaits hw => ?_)
        (fun hd => ⟨⟨hd.1, .inr rfl⟩, rfl, rfl⟩) hgrown
      refine hw.read hparser (.inr rfl) rfl rfl rfl hgrown fun _ hold => ?_
      intro hset
      have hsent : s.phase.sent = true := by
        rw [hwaits]
        rfl
      rw [if_pos hsent]
      refine ⟨s.log, ?_, hold hset⟩
      rw [hwhole hshort]

/-- A response object that the parser works on is there. -/
theorem Owned.object (h : s.Owned) (hheld : s.parser.held = some k) :
    ∃ resp, s.object k = some resp ∧ s.obj = some resp ∧ s.phase.sent = true := by
  obtain ⟨hcall, hsome, hsent⟩ := h.held k hheld
  obtain ⟨resp, hobj⟩ := isSome_iff_exists.mp hsome
  have hidle : s.phase ≠ .idle := by
    intro hno
    rw [hno] at hsent
    cases hsent
  refine ⟨resp, ?_, hobj, hsent⟩
  unfold Client.object
  rw [if_pos ⟨hcall, hidle⟩, hobj]

section

variable (h : s.Sound c)
include h

/-- The parser looks whether there is a response for the line. -/
theorem Sound.parseLine (hparser : s.parser = .line)
    (hcareful : s.resp.isSome = true → s.fresh = true) :
    (if s.resp.isSome then { s with parser := .takes } else s.readline).Sound c := by
  have hsame : ∃ more, s.log = s.log ++ more := ⟨[], (append_nil _).symm⟩
  have hcollecting := fun resp (hw : s.Waits c resp) =>
    hw.collecting (hparser.trans_ne (by decide)) (hparser.trans_ne (by decide))
  split_ifs with hset
  · have hnotDone : ¬ s.Done := fun hd => by
      rw [hd.1] at hset
      cases hset
    have hne : s.parser ≠ .reading := hparser.trans_ne (by decide)
    refine ⟨h.fault, h.reads.same rfl rfl fun _ => hne, ?_, fun resp hresp => ?_⟩
    · refine h.owned.move rfl rfl rfl (.inl rfl) (fun _ => id) .inl
        (fun _ => ⟨hcareful hset, hset⟩) (fun k hno => ?_)
        fun hsends => ⟨(h.owned.reset hsends).1, (fun hno => ?_), fun hno => ?_⟩
      all_goals cases hno
    · refine (h.course resp hresp).move rfl (fun _ hw => ?_) (fun hd => absurd hd hnotDone) hsame
      obtain ⟨hzero, hold⟩ | ⟨-, hd⟩ := hcollecting resp hw
      · refine .collects hzero (fun hfits => ?_)
          ⟨nofun, nofun⟩
        have hpending := hold hfits
        unfold Collects at hpending
        rw [hparser] at hpending
        have hlast := hpending hset
        rw [if_pos (hcareful hset)] at hlast
        exact hlast
      · exact absurd hd hnotDone
  · refine ⟨h.fault, .of_empty rfl rfl rfl, ?_, fun resp hresp => ?_⟩
    · exact h.owned.read (.inl rfl) rfl rfl rfl rfl rfl .inl
    · refine (h.course resp hresp).move rfl (fun _ hw => ?_)
        (fun hd => ⟨⟨hd.1, .inl rfl⟩, rfl, rfl⟩) hsame
      obtain ⟨hzero, -⟩ | ⟨hout, hd⟩ := hcollecting resp hw
      · exact .collects hzero (fun _ hno => absurd hno hset)
          ⟨nofun, nofun⟩
      · exact .ended hout ⟨hd.1, .inl rfl⟩

theorem Sound.parseTakes (hparser : s.parser = .takes) :
    ∃ k, s.resp = some k ∧ Sound c { s with parser := .copies k } := by
  obtain ⟨hfresh, hset⟩ := h.owned.takes hparser
  obtain ⟨k, hk⟩ := isSome_iff_exists.mp hset
  have hne : s.parser ≠ .reading ∧ s.parser ≠ .line := by simp [hparser]
  refine ⟨k, hk, h.fault, h.reads.same rfl rfl fun _ => hne.1, ?_, fun resp hresp => ?_⟩
  · refine h.owned.move rfl rfl rfl (.inl rfl) (fun _ => id) .inl (fun hno => ?_)
      (fun j hj => .inr ⟨hparser, hk.trans hj⟩)
      fun hsends => ⟨(h.owned.reset hsends).1, (fun hno => ?_), fun hno => ?_⟩
    all_goals cases hno
  · refine (h.course resp hresp).turn hne rfl rfl fun hw => ?_
    obtain ⟨hzero, hold⟩ := hw.working hne (by simp [hparser])
    refine .collects hzero (fun hfits => ?_) ⟨nofun, nofun⟩
    have hpending := hold hfits
    unfold Collects at hpending
    rw [hparser] at hpending
    exact hpending

theorem Sound.parseCopies (hparser : s.parser = .copies k) :
    ∃ resp, s.object k = some resp ∧ (s.copy k resp).Sound c := by
  obtain ⟨resp, hobject, hobj, hsent⟩ := h.owned.object (k := k) (by rw [hparser]; rfl)
  have hne : ∀ {p : Parser}, p.held = none → s.parser ≠ p := fun hnone heq => by
    rw [← heq, hparser] at hnone
    cases hnone
  have hnonempty := h.reads.nonempty (hne rfl)
  have howned : ∀ u : Client, u.phase = s.phase → u.calls = s.calls → u.obj.isSome = s.obj.isSome →
      u.resp = s.resp → u.fresh = s.fresh → u.respNotice = s.respNotice → u.parser = .checks k →
        u.Owned := by
    intro u hphase hcalls hsome hresp hfresh hnotice hpos
    refine h.owned.move hphase hcalls hsome (.inr hsent) (fun j hj => hresp ▸ hj)
      (fun hf => .inl (hfresh ▸ hf)) (fun hno => ?_) (fun j hj => .inl ?_)
      fun hsends => ⟨hnotice.trans (h.owned.reset hsends).1, hpos.trans_ne ?_, hpos.trans_ne ?_⟩
    · rw [hpos] at hno
      cases hno
    · rw [hpos] at hj
      rw [hparser]
      exact hj
    · exact nofun
    · exact nofun
  have hcollecting := fun hw : s.Waits c resp => hw.working ⟨hne rfl, hne rfl⟩ ⟨hne rfl, hne rfl⟩
  have hzero := fun hw : s.Waits c resp => (hcollecting hw).1
  have hpending : s.Fits c resp → s.Waits c resp → s.Pending c resp := by
    intro hfits hw
    have hlast := (hcollecting hw).2 hfits
    unfold Collects at hlast
    rw [hparser] at hlast
    exact hlast
  refine ⟨resp, hobject, ?_⟩
  unfold Client.copy
  split_ifs with hroom
  · have hbounds : resp.bufLen + (terminated s.line.buf).length ≤ resp.buf.length := by
      rw [length_terminated hnonempty]
      exact hroom.le
    obtain ⟨buf, hwrite, hlength, -⟩ := Cells.writeBlock_of_le _ _ _ hbounds
    rw [hwrite]
    refine ⟨h.fault, h.reads.same rfl rfl fun _ => hne rfl, ?_, fun resp' hresp => ?_⟩
    · exact howned _ rfl rfl (by rw [hobj]; rfl) rfl rfl rfl rfl
    · cases hresp
      refine (h.course resp hobj).turn ⟨hne rfl, hne rfl⟩ rfl rfl fun hw => ?_
      refine .collects (hzero hw) (fun hfits => ?_) ⟨nofun, nofun⟩
      -- the buffer is as long as before
      have hfits' : s.Fits c resp := ⟨hfits.1, hlength ▸ hfits.2⟩
      obtain ⟨lines, hlog, hstored, hnone⟩ := hpending hfits' hw
      obtain ⟨-, buf', hwrite', hcopied⟩ := hstored.copy hnonempty (hlog ▸ hfits'.2)
      obtain rfl := some.inj (hwrite.symm.trans hwrite')
      refine ⟨lines, hlog, ?_, hnone⟩
      rw [hlog]
      exact hcopied
  · refine ⟨h.fault, h.reads.same rfl rfl fun _ => hne rfl, ?_, fun resp' hresp => ?_⟩
    · exact howned _ rfl rfl rfl rfl rfl rfl rfl
    · obtain rfl := some.inj (hobj.symm.trans hresp)
      refine (h.course resp hresp).turn ⟨hne rfl, hne rfl⟩ rfl rfl fun hw => ?_
      refine .collects (hzero hw) (fun hfits => ?_) ⟨nofun, nofun⟩
      obtain ⟨lines, hlog, hstored, -⟩ := hpending hfits hw
      exact absurd (hstored.copy hnonempty (hlog ▸ hfits.2)).1 hroom

/-- It looks how the line ends the response, which then holds all lines if it is complete. -/
theorem Sound.parseChecks (hparser : s.parser = .checks k) (hcareful : ∀ resp ∈ s.object k,
      c.checkResult resp.lineNum resp.lineCounts s.line.buf = some .ok → s.Fits c resp) :
    ∃ resp, s.object k = some resp ∧
      (c.checkResult resp.lineNum resp.lineCounts s.line.buf = none → s.readline.Sound c) ∧
      ∀ status, c.checkResult resp.lineNum resp.lineCounts s.line.buf = some status →
        Sound c { s with parser := .clears, respStatus := status } := by
  obtain ⟨resp, hobject, hobj, hsent⟩ := h.owned.object (k := k) (by rw [hparser]; rfl)
  have hne : ∀ {p : Parser}, p.held = none → s.parser ≠ p := fun hnone heq => by
    rw [← heq, hparser] at hnone
    cases hnone
  have hcollecting := fun hw : s.Waits c resp => hw.working ⟨hne rfl, hne rfl⟩ ⟨hne rfl, hne rfl⟩
  -- the check counts the lines that have been copied, the last one included
  have hanswer : s.Fits c resp → s.Waits c resp → resp.Stored s.log ∧
      c.answer resp.lineNum 0 s.log =
        if (c.checkResult resp.lineNum resp.lineCounts s.line.buf).isSome then some s.log
        else none := by
    intro hfits hw
    have hlast := (hcollecting hw).2 hfits
    unfold Collects at hlast
    rw [hparser] at hlast
    obtain ⟨lines, hlog, hstored, hnone⟩ := hlast
    refine ⟨hstored, ?_⟩
    have hconcat := Setup.answer_concat hnone s.line.buf
    have hcounts : resp.lineCounts = 0 + lines.length + 1 := by
      rw [hstored.lineCounts, hlog, length_append, length_singleton]
      omega
    rw [← hlog, ← hcounts] at hconcat
    exact hconcat
  refine ⟨resp, hobject, fun hcheck => ?_, fun status hcheck => ?_⟩
  · refine ⟨h.fault, .of_empty rfl rfl rfl, ?_, fun resp' hresp => ?_⟩
    · exact h.owned.read (.inl rfl) rfl rfl rfl rfl rfl .inl
    · obtain rfl := some.inj (hobj.symm.trans hresp)
      refine (h.course resp hresp).turn ⟨hne rfl, hne rfl⟩ rfl rfl fun hw => ?_
      refine .collects (hcollecting hw).1 (fun hfits _ => ?_) ⟨nofun, nofun⟩
      obtain ⟨hstored, hnone⟩ := hanswer hfits hw
      rw [hcheck] at hnone
      exact ⟨hstored, hnone⟩
  · refine ⟨h.fault, h.reads.same rfl rfl fun _ => hne rfl, ?_, fun resp' hresp => ?_⟩
    · refine h.owned.move rfl rfl rfl (.inl rfl) (fun _ => id) .inl (fun hno => ?_)
        (fun j hno => ?_) fun hsends => ?_
      · cases hno
      · cases hno
      · rw [hsends] at hsent
        cases hsent
    · obtain rfl := some.inj (hobj.symm.trans hresp)
      refine (h.course resp hresp).turn ⟨hne rfl, hne rfl⟩ rfl rfl fun hw => ?_
      refine .ends (hcollecting hw).1 (fun hok => ?_) (.inl rfl)
      have hfits := hcareful resp hobject (hcheck.trans (congrArg some hok))
      obtain ⟨hstored, hsome⟩ := hanswer hfits hw
      rw [hcheck] at hsome
      exact ⟨s.log, hsome, hstored.holds fun line hline => (hfits.1 line hline).2⟩

theorem Sound.parseClears (hparser : s.parser = .clears) :
    Sound c { s with parser := .releases, resp := none } := by
  have hne : s.parser ≠ .reading ∧ s.parser ≠ .line := by simp [hparser]
  refine ⟨h.fault, h.reads.same rfl rfl fun _ => hne.1, ?_, fun resp hresp => ?_⟩
  · refine h.owned.move rfl rfl rfl (.inl rfl) (fun j hno => ?_) .inl (fun hno => ?_)
      (fun j hno => ?_) fun hsends => absurd hparser (h.owned.reset hsends).2.1
    all_goals cases hno
  · refine (h.course resp hresp).turn hne rfl rfl fun hw => ?_
    cases hw with
    | collects _ _ hquiet => exact absurd hparser hquiet.1
    | ends hzero hout _ => exact .ends hzero hout (.inr ⟨rfl, rfl⟩)
    | ended _ hd => exact absurd hd (not_done hne)

theorem Sound.parseReleases (hparser : s.parser = .releases) :
    Sound c { s.readline with respNotice := s.respNotice + 1 } := by
  have hne : s.parser ≠ .reading ∧ s.parser ≠ .line := by simp [hparser]
  refine ⟨h.fault, .of_empty rfl rfl rfl, ?_, fun resp hresp => ?_⟩
  · refine h.owned.move rfl rfl rfl (.inl rfl) (fun j => id) .inl (fun hno => ?_)
      (fun j hno => ?_) fun hsends => absurd hparser (h.owned.reset hsends).2.2
    all_goals cases hno
  · refine (h.course resp hresp).turn hne rfl rfl fun hw => ?_
    cases hw with
    | collects _ _ hquiet => exact absurd hparser hquiet.2
    | ends _ hout hends =>
      obtain hno | ⟨-, hnone⟩ := hends
      · rw [hparser] at hno
        cases hno
      · exact .ended hout ⟨hnone, .inl rfl⟩
    | ended _ hd => exact absurd hd (not_done hne)

theorem Sound.parse (hcareful : s.ParserCareful c) (hstep : s.parse c = some t) : t.Sound c := by
  unfold ParserCareful at hcareful
  unfold Client.parse at hstep
  cases hparser : s.parser with
  | reading =>
    rw [hparser] at hstep
    cases hstep
  | line =>
    rw [hparser] at hstep hcareful
    exact some.inj hstep ▸ h.parseLine hparser hcareful
  | takes =>
    obtain ⟨k, hk, hsound⟩ := h.parseTakes hparser
    rw [hparser] at hstep
    dsimp only at hstep
    split at hstep
    · next hnone =>
      rw [hk] at hnone
      cases hnone
    · next j hj =>
      obtain rfl := some.inj (hk.symm.trans hj)
      exact some.inj hstep ▸ hsound
  | copies k =>
    obtain ⟨resp, hobject, hsound⟩ := h.parseCopies hparser
    rw [hparser] at hstep
    simp only [hobject] at hstep
    exact some.inj hstep ▸ hsound
  | checks k =>
    rw [hparser] at hstep hcareful
    obtain ⟨resp, hobject, hgoes, hends⟩ := h.parseChecks hparser hcareful
    simp only [hobject] at hstep
    cases hcheck : c.checkResult resp.lineNum resp.lineCounts s.line.buf with
    | none =>
      rw [hcheck] at hstep
      exact some.inj hstep ▸ hgoes hcheck
    | some status =>
      rw [hcheck] at hstep
      exact some.inj hstep ▸ hends status hcheck
  | clears =>
    rw [hparser] at hstep
    exact some.inj hstep ▸ h.parseClears hparser
  | releases =>
    rw [hparser] at hstep
    exact some.inj hstep ▸ h.parseReleases hparser

end

end Client

end RtKernel.At
