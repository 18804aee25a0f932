import RtKernel.Drivers.SerialFifo

/-!
# What the DMA of a UART has received

A counter runs down from the size of the buffer and is loaded again at zero, which
raises the completion interrupt. The receive timeout interrupt samples the counter and
reports what has come since the last report; the completion interrupt reports the rest
of the buffer. Either handler may be entered while the other one runs.
-/

namespace RtKernel.Serial

/-- A difference of `rt_size_t`. -/
def sub32 (a b : Nat) : Nat := (a + (2 ^ 32 - b)) % 2 ^ 32

/-- `RT_SERIAL_EVENT_RX_DMADONE | (recv_len << 8)`, as an `int`. -/
def dmaDoneEvent (recvLen : Nat) : Int := RtSerialRxFifo.toInt (recvLen * 2 ^ 8 % 2 ^ 32 + 0x03)

/-- `(event & (~0xff)) >> 8`. -/
def eventLength (event : Int) : Int := event / 2 ^ 8

/-- Where `hc32_uart_rxto_irq_handler` is. -/
inductive Rxto
  | idle
  /-- The counter has been read, after so many reloads. -/
  | sampled (recvTotalIndex reloads : Nat)
  | reports (recvLen : Nat)
  deriving DecidableEq

/-- Where `hc32_uart_dma_rx_irq_handler` is. -/
inductive DmaRx
  | idle
  | entered
  | reports (recvLen : Nat)
  deriving DecidableEq

/-- `struct hc32_uart` with its DMA channel and its handlers. -/
structure Hc32Uart where
  bufsz : Nat
  dmaRxLastIndex : Nat
  /-- `DMA_TRANS_CNT`. -/
  cnt : Nat
  /-- The completion interrupt is raised and has not been taken. -/
  pending : Bool
  rxto : Rxto
  dmaRx : DmaRx
  /-- The lengths of the events. -/
  reported : List Int
  /-- The bytes that the DMA has received, and how often it has been loaded again. -/
  received : Nat
  reloads : Nat
  /-- How many completions have been counted by their handler. -/
  served : Nat
  /-- The counter has been sampled after the last byte. -/
  fresh : Bool

/-- What happens to the UART. -/
inductive UartAct
  | transfer
  | rxtoSample
  | rxtoLock
  | rxtoReport
  | dmaRxEnter
  | dmaRxLock
  | dmaRxReport

/-- What a handler has computed and not yet reported. -/
def Rxto.due : Rxto → Nat
  | .reports recvLen => recvLen
  | .idle | .sampled _ _ => 0

def DmaRx.due : DmaRx → Nat
  | .reports recvLen => recvLen
  | .idle | .entered => 0

namespace Hc32Uart

/-- `rt_hw_serial_isr` with the event of a length. -/
def report (uart : Hc32Uart) (recvLen : Nat) : Hc32Uart :=
  { uart with reported := uart.reported ++ [eventLength (dmaDoneEvent recvLen)] }

def exec (uart : Hc32Uart) : UartAct → Option Hc32Uart
  | .transfer =>
    let uart := { uart with received := uart.received + 1, fresh := false }
    some
      (if uart.cnt = 1 then
        { uart with cnt := uart.bufsz, pending := true, reloads := uart.reloads + 1 }
      else { uart with cnt := uart.cnt - 1 })
  | .rxtoSample =>
    match uart.rxto with
    | .idle =>
      let recvTotalIndex := sub32 uart.bufsz uart.cnt
      some
        (if recvTotalIndex ≠ 0 then
          { uart with rxto := .sampled recvTotalIndex uart.reloads, fresh := true }
        else { uart with fresh := true })
    | _ => none
  | .rxtoLock =>
    match uart.rxto with
    | .sampled recvTotalIndex _ =>
      let recvLen := sub32 recvTotalIndex uart.dmaRxLastIndex
      some { uart with
        dmaRxLastIndex := recvTotalIndex
        rxto := if recvLen ≠ 0 then .reports recvLen else .idle }
    | _ => none
  | .rxtoReport =>
    match uart.rxto with
    | .reports recvLen => some { uart.report recvLen with rxto := .idle }
    | _ => none
  | .dmaRxEnter =>
    match uart.pending, uart.dmaRx with
    | true, .idle => some { uart with pending := false, dmaRx := .entered }
    | _, _ => none
  | .dmaRxLock =>
    match uart.dmaRx with
    | .entered =>
      let recvLen := sub32 uart.bufsz uart.dmaRxLastIndex
      some { uart with
        dmaRxLastIndex := 0
        dmaRx := if recvLen ≠ 0 then .reports recvLen else .idle
        served := uart.served + 1 }
    | _ => none
  | .dmaRxReport =>
    match uart.dmaRx with
    | .reports recvLen => some { uart.report recvLen with dmaRx := .idle }
    | _ => none

/-- A UART that has just been configured. -/
def Initial (bufsz : Nat) (uart : Hc32Uart) : Prop :=
  uart = { bufsz := bufsz, dmaRxLastIndex := 0, cnt := bufsz, pending := false, rxto := .idle
           dmaRx := .idle, reported := [], received := 0, reloads := 0, served := 0, fresh := false }

/-- The sum of lengths. -/
def total : List Int → Int
  | [] => 0
  | len :: rest => len + total rest

/-- The lengths are those of a part of the buffer, are of bytes that have been received, and of all
of these when both handlers have run after the last byte. -/
structure Reports (bufsz : Nat) (uart : Hc32Uart) : Prop where
  bounds : ∀ len ∈ uart.reported, 1 ≤ len ∧ len ≤ bufsz
  le : total uart.reported ≤ uart.received
  all : uart.pending = false → uart.dmaRx = .idle → uart.rxto = .idle → uart.fresh = true →
    total uart.reported = uart.received

/-- The DMA is loaded again only when the last completion has been taken; what the timeout handler
has sampled is not of a round whose start has not been counted, nor beyond what has come since. -/
def Careful (uart : Hc32Uart) : UartAct → Prop
  | .transfer => ¬ (uart.pending = true ∧ uart.cnt = 1)
  | .rxtoLock =>
    match uart.rxto with
    | .sampled recvTotalIndex reloads =>
      reloads ≤ uart.served ∧ recvTotalIndex ≤ uart.received - uart.served * uart.bufsz
    | _ => True
  | _ => True

instance (uart : Hc32Uart) (a : UartAct) : Decidable (Careful uart a) :=
  match a with
  | .transfer => inferInstanceAs (Decidable ¬ (uart.pending = true ∧ uart.cnt = 1))
  | .rxtoLock =>
    match h : uart.rxto with
    | .sampled recvTotalIndex reloads =>
      decidable_of_iff
        (reloads ≤ uart.served ∧ recvTotalIndex ≤ uart.received - uart.served * uart.bufsz)
        (by simp only [Careful, h])
    | .idle => .isTrue (by simp only [Careful, h])
    | .reports _ => .isTrue (by simp only [Careful, h])
  | .rxtoSample | .rxtoReport | .dmaRxEnter | .dmaRxLock | .dmaRxReport => .isTrue trivial

theorem total_concat (lens : List Int) (len : Int) : total (lens ++ [len]) = total lens + len := by
  induction lens with
  | nil => exact Int.add_comm len 0
  | cons x rest ih =>
    show x + total (rest ++ [len]) = x + total rest + len
    rw [ih, Int.add_assoc]

theorem sub32_eq {a b : Nat} (hle : b ≤ a) (ha : a < 2 ^ 32) : sub32 a b = a - b := by
  unfold sub32
  omega

/-- A length up to 23 bits comes out of its event. -/
theorem eventLength_eq {len : Nat} (h : len < 2 ^ 23) : eventLength (dmaDoneEvent len) = len := by
  unfold eventLength dmaDoneEvent RtSerialRxFifo.toInt
  omega

/-- What is reported and due is what has come before the last index, and a sample is not older than
what it is compared with. -/
structure Good (n : Nat) (uart : Hc32Uart) : Prop where
  bufsz : uart.bufsz = n
  small : n < 2 ^ 16
  cnt_pos : 1 ≤ uart.cnt
  cnt_le : uart.cnt ≤ n
  reloads : uart.reloads = uart.served + uart.pending.toNat + (decide (uart.dmaRx = .entered)).toNat
  received : uart.received = uart.served * n + uart.pending.toNat * n +
    (decide (uart.dmaRx = .entered)).toNat * n + (n - uart.cnt)
  last_lt : uart.dmaRxLastIndex < n
  last_le : uart.served * n + uart.dmaRxLastIndex ≤ uart.received
  sum : total uart.reported + uart.rxto.due + uart.dmaRx.due = uart.served * n + uart.dmaRxLastIndex
  bounds : ∀ len ∈ uart.reported, 1 ≤ len ∧ len ≤ n
  rxtoDue : ∀ len, uart.rxto = .reports len → 1 ≤ len ∧ len ≤ n
  dmaRxDue : ∀ len, uart.dmaRx = .reports len → 1 ≤ len ∧ len ≤ n
  sampled : ∀ total r, uart.rxto = .sampled total r → total < n ∧ r ≤ uart.reloads ∧
    (r = uart.served → uart.dmaRxLastIndex ≤ total) ∧ (r < uart.served → uart.dmaRxLastIndex = 0) ∧
    (uart.fresh = true → r = uart.reloads ∧ total = n - uart.cnt)
  fresh : uart.fresh = true → (∀ total r, uart.rxto ≠ .sampled total r) →
    uart.reloads = uart.served ∧ uart.dmaRxLastIndex = n - uart.cnt ∨ uart.cnt = n

section

variable {n : Nat} {uart uart' : Hc32Uart}

theorem Initial.good (h : Initial n uart) (hpos : 0 < n) (hsmall : n < 2 ^ 16) : Good n uart := by
  subst h
  constructor <;> simp [total, Rxto.due, DmaRx.due, hpos]
  · exact hsmall
  · exact hpos

section

variable (h : Good n uart)
include h

/-- Where nothing is left to be done all bytes have been reported. -/
theorem Good.reports : Reports n uart where
  bounds := h.bounds
  le := by
    have hsum := h.sum
    have hle := h.last_le
    omega
  all hpending hdma hrxto hfresh := by
    have hsum := h.sum
    have hreceived := h.received
    have hreloads := h.reloads
    have hle := h.last_le
    have hlast := h.fresh hfresh (by simp [hrxto])
    simp only [hpending, hdma, hrxto, Rxto.due, DmaRx.due, reduceCtorEq, decide_false,
      Bool.toNat_false, Nat.zero_mul, Nat.add_zero] at hsum hreceived hreloads
    omega

theorem Good.transfer (hcareful : Careful uart .transfer)
    (hexec : exec uart .transfer = some uart') : Good n uart' := by
  cases hexec
  have hpos := h.cnt_pos
  have hle := h.cnt_le
  have hreceived := h.received
  have hreloads := h.reloads
  have hlast := h.last_le
  by_cases hone : uart.cnt = 1
  · have hpending : uart.pending = false := by
      cases hp : uart.pending with
      | false => rfl
      | true => exact absurd ⟨hp, hone⟩ hcareful
    simp only [if_pos hone]
    rw [hpending, Bool.toNat_false] at hreceived
    rw [hpending, Bool.toNat_false] at hreloads
    exact
      { bufsz := h.bufsz
        small := h.small
        cnt_pos := by show 1 ≤ uart.bufsz; rw [h.bufsz]; omega
        cnt_le := h.bufsz.le
        reloads := by
          dsimp only
          rw [Bool.toNat_true]
          omega
        received := by
          dsimp only
          rw [Bool.toNat_true, h.bufsz]
          omega
        last_lt := h.last_lt
        last_le := Nat.le_succ_of_le hlast
        sum := h.sum
        bounds := h.bounds
        rxtoDue := h.rxtoDue
        dmaRxDue := h.dmaRxDue
        sampled := fun total r hsampled => by
          obtain ⟨htotal, hr, hsame, hbefore, -⟩ := h.sampled total r hsampled
          exact ⟨htotal, Nat.le_succ_of_le hr, hsame, hbefore, fun hno => absurd hno Bool.false_ne_true⟩
        fresh := fun hno => absurd hno Bool.false_ne_true }
  · simp only [if_neg hone]
    exact
      { bufsz := h.bufsz
        small := h.small
        cnt_pos := by show 1 ≤ uart.cnt - 1; omega
        cnt_le := by show uart.cnt - 1 ≤ n; omega
        reloads := hreloads
        received := by
          dsimp only
          omega
        last_lt := h.last_lt
        last_le := Nat.le_succ_of_le hlast
        sum := h.sum
        bounds := h.bounds
        rxtoDue := h.rxtoDue
        dmaRxDue := h.dmaRxDue
        sampled := fun total r hsampled => by
          obtain ⟨htotal, hr, hsame, hbefore, -⟩ := h.sampled total r hsampled
          exact ⟨htotal, hr, hsame, hbefore, fun hno => absurd hno Bool.false_ne_true⟩
        fresh := fun hno => absurd hno Bool.false_ne_true }

theorem Good.rxtoSample (hexec : exec uart .rxtoSample = some uart') : Good n uart' := by
  have hcnt := h.cnt_le
  have hpos := h.cnt_pos
  have hsmall := h.small
  have hreceived := h.received
  have hreloads := h.reloads
  have hlast := h.last_le
  have htotal : sub32 uart.bufsz uart.cnt = n - uart.cnt := by
    rw [h.bufsz]
    exact sub32_eq hcnt (by omega)
  simp only [exec] at hexec
  cases hrxto : uart.rxto with
  | sampled total r | reports len => simp only [hrxto] at hexec; cases hexec
  | idle =>
    simp only [hrxto, htotal] at hexec
    by_cases hzero : n - uart.cnt ≠ 0
    · rw [if_pos hzero] at hexec
      cases hexec
      -- nothing is left to be counted where all reloads have been served
      have hsame : uart.reloads = uart.served → uart.dmaRxLastIndex ≤ n - uart.cnt := by
        intro heq
        have hp : uart.pending.toNat = 0 := by omega
        have he : (decide (uart.dmaRx = .entered)).toNat = 0 := by omega
        rw [hp, he] at hreceived
        omega
      exact
        { h with
          sum := by
            have hsum := h.sum
            rw [hrxto] at hsum
            exact hsum
          rxtoDue := fun len hlen => Rxto.noConfusion hlen
          sampled := fun total r hsampled => by
            obtain ⟨rfl, rfl⟩ := Rxto.sampled.inj hsampled
            exact ⟨by omega, le_rfl, hsame, fun hlt => by dsimp only at hlt; omega, fun _ => ⟨rfl, rfl⟩⟩
          fresh := fun _ hno => absurd rfl (hno _ _) }
    · rw [if_neg hzero] at hexec
      cases hexec
      exact
        { h with
          sampled := fun total r hsampled => by
            have hsampled : Rxto.idle = .sampled total r := hsampled
            cases hsampled
          sum := by
            have hsum := h.sum
            rw [hrxto] at hsum
            exact hsum
          rxtoDue := fun _ hlen => Rxto.noConfusion hlen
          fresh := fun _ _ => .inr (by dsimp only; omega) }

theorem Good.rxtoLock (hcareful : Careful uart .rxtoLock)
    (hexec : exec uart .rxtoLock = some uart') : Good n uart' := by
  simp only [exec] at hexec
  simp only [Careful] at hcareful
  cases hrxto : uart.rxto with
  | idle | reports len => simp only [hrxto] at hexec; cases hexec
  | sampled total r =>
    simp only [hrxto] at hexec hcareful
    obtain ⟨hr, htotal⟩ := hcareful
    obtain ⟨hlt, -, hsame, hbefore, hfresh⟩ := h.sampled total r hrxto
    have hsmall := h.small
    have hreloads := h.reloads
    have hlast := h.last_le
    have hle : uart.dmaRxLastIndex ≤ total := by
      by_cases heq : r = uart.served
      · exact hsame heq
      · have hzero := hbefore (by omega)
        omega
    rw [h.bufsz] at htotal
    rw [sub32_eq hle (by omega)] at hexec
    cases hexec
    have hdue : (if total - uart.dmaRxLastIndex ≠ 0 then Rxto.reports (total - uart.dmaRxLastIndex)
        else Rxto.idle).due = total - uart.dmaRxLastIndex := by
      split
      · rfl
      · rename_i hzero
        rw [Rxto.due]
        omega
    exact
      { h with
        last_lt := hlt
        last_le := by dsimp only; omega
        sum := by
          have hsum := h.sum
          rw [hrxto, Rxto.due] at hsum
          dsimp only
          omega
        rxtoDue := fun len hlen => by
          by_cases hzero : total - uart.dmaRxLastIndex ≠ 0
          · rw [if_pos hzero] at hlen
            have heq := Rxto.reports.inj hlen
            omega
          · rw [if_neg hzero] at hlen
            cases hlen
        sampled := fun total' r' hsampled => by
          split at hsampled <;> cases hsampled
        fresh := fun hf _ => by
          obtain ⟨hround, hcount⟩ := hfresh hf
          exact .inl ⟨by dsimp only; omega, hcount⟩ }

theorem Good.report_bounds {len : Nat} (hmin : 1 ≤ len) (hmax : len ≤ n) :
    total (uart.report len).reported = total uart.reported + len ∧
      ∀ x ∈ (uart.report len).reported, 1 ≤ x ∧ x ≤ n := by
  have hsmall := h.small
  have hlen : eventLength (dmaDoneEvent len) = len := eventLength_eq (by omega)
  unfold report
  rw [hlen]
  refine ⟨total_concat _ _, fun x hx => ?_⟩
  rcases List.mem_append.mp hx with hx | hx
  · exact h.bounds x hx
  · rw [List.mem_singleton.mp hx]
    omega

theorem Good.rxtoReport (hexec : exec uart .rxtoReport = some uart') : Good n uart' := by
  simp only [exec] at hexec
  cases hrxto : uart.rxto with
  | idle | sampled total r => simp only [hrxto] at hexec; cases hexec
  | reports len =>
    simp only [hrxto] at hexec
    cases hexec
    obtain ⟨hmin, hmax⟩ := h.rxtoDue len hrxto
    obtain ⟨hsum', hbounds⟩ := h.report_bounds hmin hmax
    have hsum := h.sum
    rw [hrxto, Rxto.due] at hsum
    exact
      { h with
        sum := by
          rw [hsum', Rxto.due]
          show _ + _ + (uart.dmaRx.due : Int) = uart.served * n + uart.dmaRxLastIndex
          omega
        bounds := hbounds
        rxtoDue := fun _ hlen => Rxto.noConfusion hlen
        sampled := fun _ _ hsampled => Rxto.noConfusion hsampled
        fresh := fun hf _ => h.fresh hf (fun _ _ hno => by rw [hrxto] at hno; cases hno) }

theorem Good.dmaRxEnter (hexec : exec uart .dmaRxEnter = some uart') : Good n uart' := by
  simp only [exec] at hexec
  split at hexec
  · rename_i hpending hdma
    cases hexec
    have hreloads := h.reloads
    have hreceived := h.received
    have hsum := h.sum
    simp only [hpending, hdma, Bool.toNat_true, reduceCtorEq, decide_false, Bool.toNat_false]
      at hreloads hreceived
    rw [hdma] at hsum
    exact
      { h with
        reloads := by simp only [decide_true, Bool.toNat_true, Bool.toNat_false]; omega
        received := by
          simp only [decide_true, Bool.toNat_true, Bool.toNat_false]
          omega
        sum := hsum
        dmaRxDue := fun _ hlen => DmaRx.noConfusion hlen }
  · cases hexec

theorem Good.dmaRxLock (hexec : exec uart .dmaRxLock = some uart') : Good n uart' := by
  simp only [exec] at hexec
  cases hdma : uart.dmaRx with
  | idle | reports len => simp only [hdma] at hexec; cases hexec
  | entered =>
    have hlt := h.last_lt
    have hsmall := h.small
    have hreloads := h.reloads
    have hreceived := h.received
    have hsum := h.sum
    simp only [hdma, h.bufsz, sub32_eq hlt.le (by omega)] at hexec
    rw [if_pos (by omega)] at hexec
    cases hexec
    simp only [hdma, decide_true, Bool.toNat_true, DmaRx.due] at hreloads hreceived hsum
    have hnext : (uart.served + 1) * n = uart.served * n + n := Nat.succ_mul _ _
    exact
      { h with
        bufsz := rfl
        reloads := by simp only [reduceCtorEq, decide_false, Bool.toNat_false]; omega
        received := by
          simp only [reduceCtorEq, decide_false, Bool.toNat_false]
          omega
        last_lt := Nat.zero_lt_of_lt hlt
        last_le := by dsimp only; omega
        sum := by
          simp only [DmaRx.due]
          omega
        dmaRxDue := fun len hlen => by
          have heq := DmaRx.reports.inj hlen
          omega
        sampled := fun total r hsampled => by
          obtain ⟨htotal, hr, -, -, hfresh⟩ := h.sampled total r hsampled
          exact ⟨htotal, hr, fun _ => Nat.zero_le _, fun _ => rfl, hfresh⟩
        fresh := fun hf hno => by
          rcases h.fresh hf hno with ⟨heq, -⟩ | hfull
          · omega
          · exact .inr hfull }

theorem Good.dmaRxReport (hexec : exec uart .dmaRxReport = some uart') : Good n uart' := by
  simp only [exec] at hexec
  cases hdma : uart.dmaRx with
  | idle | entered => simp only [hdma] at hexec; cases hexec
  | reports len =>
    simp only [hdma] at hexec
    cases hexec
    obtain ⟨hmin, hmax⟩ := h.dmaRxDue len hdma
    obtain ⟨hsum', hbounds⟩ := h.report_bounds hmin hmax
    have hsum := h.sum
    have hreloads := h.reloads
    have hreceived := h.received
    rw [hdma, DmaRx.due] at hsum
    simp only [hdma, reduceCtorEq, decide_false] at hreloads hreceived
    exact
      { h with
        reloads := by
          exact hreloads
        received := by
          exact hreceived
        sum := by
          rw [hsum', DmaRx.due]
          show _ + (uart.rxto.due : Int) + _ = uart.served * n + uart.dmaRxLastIndex
          omega
        bounds := hbounds
        dmaRxDue := fun _ hlen => DmaRx.noConfusion hlen }

theorem Good.exec {a : UartAct} (hcareful : Careful uart a)
    (hexec : exec uart a = some uart') : Good n uart' := by
  cases a with
  | transfer => exact h.transfer hcareful hexec
  | rxtoSample => exact h.rxtoSample hexec
  | rxtoLock => exact h.rxtoLock hcareful hexec
  | rxtoReport => exact h.rxtoReport hexec
  | dmaRxEnter => exact h.dmaRxEnter hexec
  | dmaRxLock => exact h.dmaRxLock hexec
  | dmaRxReport => exact h.dmaRxReport hexec

end

/-- As long as what is sampled fits to the completions that have been counted, the lengths are those
of the bytes received. -/
theorem reachable_reports (hpos : 0 < n) (hsmall : n < 2 ^ 16)
    (h : Reachable (Initial n) (Within (fun s a t => exec s a = some t) Careful) uart) :
    Reports n uart := by
  have hgood : Good n uart :=
    h.invariant (fun _ h₀ => h₀.good hpos hsmall) fun _ _ _ _ ih hstep => ih.exec hstep.1 hstep.2
  exact hgood.reports

end

/-- A UART with a buffer of four bytes. -/
def configured : Hc32Uart where
  bufsz := 4
  dmaRxLastIndex := 0
  cnt := 4
  pending := false
  rxto := .idle
  dmaRx := .idle
  reported := []
  received := 0
  reloads := 0
  served := 0
  fresh := false

theorem configured_initial : Initial 4 configured := rfl

/-- Five bytes are reported in three parts. -/
theorem reachable_reports_five : ∃ uart : Hc32Uart,
    (uart.reported = [3, 1, 1] ∧ uart.received = 5) ∧ Reports 4 uart := by
  have hrun : ∃ s ∈ runWithin exec Careful configured [.transfer, .transfer, .transfer, .rxtoSample,
      .rxtoLock, .rxtoReport, .transfer, .dmaRxEnter, .dmaRxLock, .transfer, .rxtoSample,
      .dmaRxReport, .rxtoLock, .rxtoReport],
      s.reported = [3, 1, 1] ∧ s.received = 5 := by decide +kernel
  obtain ⟨uart, hreach, htuple⟩ := Reachable.of_runWithin configured_initial hrun
  exact ⟨uart, htuple, reachable_reports (by decide) (by decide) hreach⟩

/-- The counter is sampled between the reload and its completion interrupt, and the length is
negative. -/
theorem late_completion_not_reports : ¬ ∀ n, 0 < n → n < 2 ^ 16 → ∀ uart,
    Reachable (Initial n) (fun s a t => exec s a = some t) uart → Reports n uart := by
  intro hall
  have hrun : ∃ s ∈ runAll exec configured [.transfer, .transfer, .transfer, .rxtoSample, .rxtoLock,
      .rxtoReport, .transfer, .transfer, .rxtoSample, .rxtoLock, .rxtoReport],
      s.reported = [3, -2] := by decide +kernel
  obtain ⟨uart, hs, hreported⟩ := Reachable.of_runAll configured_initial hrun
  have hreports := hall 4 (by decide) (by decide) uart hs
  have hbound := hreports.bounds (-2) (by rw [hreported]; decide)
  exact absurd hbound.1 (by decide)

end Hc32Uart

end RtKernel.Serial
