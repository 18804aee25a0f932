import RtKernel.Core.Places
import RtKernel.Core.Rings
import RtKernel.Core.Run

/-!
# Received CAN messages by filter

With `RT_CAN_USING_HDR`, a message that waits is in the list of all that wait and, where
its filter is connected, in the list of its filter too, which it points to as its owner.
Reads take the first of either list; `RT_CAN_CMD_SET_FILTER` connects and disconnects
filters while messages may arrive.

`τ` are the threads. Of a message only the index of its filter is kept, and the number of
its arrival. How many bytes a read has left, and what it writes, is left out, and so are
the filters themselves and the callbacks. There is no result where an assertion fails.
-/

open List Option

namespace RtKernel.CanHdr

open Function (update update_eq_self update_of_ne update_self)

/-- A list node of a header, or the node `hdrlist` of a message. -/
inductive Node
  | head (hdr : Nat)
  | msg (n : Nat)
  deriving DecidableEq

/-- Where a thread is. -/
inductive Phase
  | idle
  /-- In `_can_int_rx` at `while (msgs)`, with the fields `hdr` that are left in its buffer. -/
  | loops (hdrs : List Int)
  /-- It has taken a message, and frees its node next. -/
  | frees (listmsg : Nat) (hdrs : List Int)
  /-- In `RT_CAN_CMD_SET_FILTER`, with the items that are left. -/
  | filters (actived : Bool) (items : List Int)
  /-- It has found a header that is not connected, and connects it next. -/
  | connects (hdr : Nat) (items : List Int)
  deriving DecidableEq

/-- The message that a thread has in its hands. -/
def Phase.node : Phase → Option Nat
  | frees listmsg _ => some listmsg
  | _ => none

/-- The device, with the threads and what has happened. -/
structure Can (τ : Type*) where
  msgboxsz : Nat
  maxhdr : Nat
  freelist : List Nat
  uselist : List Nat
  /-- The links of `hdr[].list` and of the nodes `hdrlist`. -/
  hdrlist : Links Node
  owner : Nat → Option Nat
  /-- `hdr[].connected`. -/
  connected : Nat → Bool
  /-- `hdr[].msgs`. -/
  msgs : Nat → Nat
  phase : τ → Phase
  /-- How many messages were stored. -/
  arrived : Nat
  /-- The number of the message in a node. -/
  stamp : Nat → Nat

/-- The messages of a header, as they wait. -/
def owned (uselist : List Nat) (owner : Nat → Option Nat) (hdr : Nat) : List Nat :=
  uselist.filter fun n => owner n = some hdr

theorem owned_append (l l' : List Nat) (owner : Nat → Option Nat) (h : Nat) :
    owned (l ++ l') owner h = owned l owner h ++ owned l' owner h := filter_append ..

theorem mem_owned {l : List Nat} {owner : Nat → Option Nat} {h n : Nat} :
    n ∈ owned l owner h ↔ n ∈ l ∧ owner n = some h := by
  simp [owned]

/-- Messages that keep their owners stay where they are. -/
theorem owned_congr {l : List Nat} {owner owner' : Nat → Option Nat} (h : Nat)
    (heq : ∀ n ∈ l, owner' n = owner n) : owned l owner' h = owned l owner h :=
  filter_congr fun n hn => by rw [heq n hn]

/-- The lists, the owners, and what the headers say of them. -/
structure Filed (uselist : List Nat) (owner : Nat → Option Nat) (connected : Nat → Bool)
    (msgs : Nat → Nat) (hdrlist : Links Node) : Prop where
  rings : Links.Rings hdrlist .head fun h => (owned uselist owner h).map .msg
  loose : ∀ n, owner n = none → hdrlist.Loose (.msg n)
  waits : ∀ n h, owner n = some h → n ∈ uselist ∧ connected h = true
  msgs : ∀ h, msgs h = (owned uselist owner h).length

namespace Filed

variable {uselist l₁ l₂ : List Nat} {owner : Nat → Option Nat} {connected : Nat → Bool}
  {msgs : Nat → Nat} {hdrlist : Links Node} {n h : Nat}

/-- A message that has an owner is taken out of both lists. -/
theorem takeOwned (F : Filed (l₁ ++ n :: l₂) owner connected msgs hdrlist)
    (hnodup : (l₁ ++ n :: l₂).Nodup) (hn : owner n = some h) :
    Filed (l₁ ++ l₂) (update owner n none) connected
      (update msgs h (msgs h - 1)) (hdrlist.remove (.msg n)) := by
  have hout : ∀ m ∈ l₁ ++ l₂, m ≠ n := by
    have hperm : (n :: (l₁ ++ l₂)).Nodup := perm_middle.nodup_iff.mp hnodup
    rintro m hm rfl
    exact (nodup_cons.mp hperm).1 hm
  have howned : ∀ k, owned (l₁ ++ l₂) (update owner n none) k =
      owned l₁ owner k ++ owned l₂ owner k := by
    intro k
    rw [owned_congr k fun m hm => update_of_ne (hout m hm) _ _, owned_append]
  have hold : owned (l₁ ++ n :: l₂) owner h = owned l₁ owner h ++ n :: owned l₂ owner h := by
    simp [owned, hn]
  have hother : ∀ k, k ≠ h → owned (l₁ ++ n :: l₂) owner k = owned l₁ owner k ++ owned l₂ owner k := by
    intro k hk
    simp [owned, hn, hk.symm]
  refine ⟨?_, fun m hm => ?_, fun m k hm => ?_, fun k => ?_⟩
  · have hrings := F.rings.remove (i := h) (n := .msg n) (t := (owned l₁ owner h).map .msg)
      (k := (owned l₂ owner h).map .msg) (by rw [hold, map_append, map_cons])
    have hlists : (fun k => (owned (l₁ ++ l₂) (update owner n none) k).map Node.msg) =
        update (fun k => (owned (l₁ ++ n :: l₂) owner k).map Node.msg) h
          ((owned l₁ owner h).map .msg ++ (owned l₂ owner h).map .msg) := by
      funext k
      by_cases hk : k = h
      · rw [hk, update_self, howned, map_append]
      · rw [update_of_ne hk, howned, hother k hk]
    rw [hlists]
    exact hrings
  · by_cases hmn : m = n
    · rw [hmn]
      exact Links.remove_loose _ _
    · rw [update_of_ne hmn] at hm
      refine F.rings.loose_remove (i := h) ?_ (F.loose m hm) (fun heq => hmn (Node.msg.inj heq))
        fun j => by simp
      rw [hold]
      exact .tail _ (mem_map_of_mem (mem_append_right _ (.head _)))
  · by_cases hmn : m = n
    · rw [hmn, update_self] at hm
      cases hm
    · rw [update_of_ne hmn] at hm
      obtain ⟨hin, hconnected⟩ := F.waits m k hm
      refine ⟨?_, hconnected⟩
      rcases mem_append.mp hin with hin | hin
      · exact mem_append_left l₂ hin
      · exact mem_append_right l₁ ((mem_cons.mp hin).resolve_left hmn)
  · by_cases hk : k = h
    · rw [hk, update_self, F.msgs, hold, howned, length_append, length_append,
        length_cons]
      rfl
    · rw [update_of_ne hk, F.msgs, hother k hk, howned]

theorem free (F : Filed uselist owner connected msgs hdrlist) (hn : n ∉ uselist) : owner n = none := by
  cases howner : owner n with
  | none => rfl
  | some k => exact absurd (F.waits n k howner).1 hn

theorem takeFree (F : Filed (l₁ ++ n :: l₂) owner connected msgs hdrlist) (hn : owner n = none) :
    Filed (l₁ ++ l₂) owner connected msgs hdrlist := by
  have howned : ∀ k, owned (l₁ ++ n :: l₂) owner k = owned (l₁ ++ l₂) owner k := by
    intro k
    simp [owned, hn]
  refine ⟨?_, F.loose, fun m k hm => ?_, fun k => ?_⟩
  · have hrings := F.rings
    simp only [howned] at hrings
    exact hrings
  · obtain ⟨hin, hconnected⟩ := F.waits m k hm
    refine ⟨?_, hconnected⟩
    rcases mem_append.mp hin with hin | hin
    · exact mem_append_left l₂ hin
    · refine mem_append_right l₁ ((mem_cons.mp hin).resolve_left ?_)
      rintro rfl
      rw [hn] at hm
      cases hm
  · rw [F.msgs, howned]

section

variable (F : Filed uselist owner connected msgs hdrlist)
include F

/-- A message that no connected filter has let through comes last. -/
theorem append (hn : n ∉ uselist) : Filed (uselist ++ [n]) owner connected msgs hdrlist := by
  have howned : ∀ k, owned (uselist ++ [n]) owner k = owned uselist owner k := by
    intro k
    simp [owned, F.free hn]
  refine ⟨?_, F.loose, fun m k hm => ?_, fun k => ?_⟩
  · have hrings := F.rings
    simp only [← howned] at hrings
    exact hrings
  · exact ⟨mem_append_left _ (F.waits m k hm).1, (F.waits m k hm).2⟩
  · rw [F.msgs, howned]

/-- A message of a filter that is connected comes last in both lists. -/
theorem appendOwned (hn : n ∉ uselist)
    (hconnected : connected h = true) : Filed (uselist ++ [n]) (update owner n (some h)) connected
      (update msgs h (msgs h + 1)) (hdrlist.insertBefore (.head h) (.msg n)) := by
  have hold : ∀ k, owned uselist (update owner n (some h)) k = owned uselist owner k := by
    intro k
    refine owned_congr k fun m hm => update_of_ne ?_ _ _
    rintro rfl
    exact hn hm
  have hsame : owned (uselist ++ [n]) (update owner n (some h)) h =
      owned uselist owner h ++ [n] := by
    rw [owned_append, hold]
    simp [owned]
  have hother : ∀ k, k ≠ h → owned (uselist ++ [n]) (update owner n (some h)) k =
      owned uselist owner k := by
    intro k hk
    rw [owned_append, hold]
    simp [owned, hk.symm]
  have hnode : ∀ j, Node.msg n ∉ Node.head j :: (owned uselist owner j).map Node.msg := by
    intro j hin
    rcases mem_cons.mp hin with heq | hin
    · cases heq
    · obtain ⟨m, hm, heq⟩ := mem_map.mp hin
      cases heq
      exact hn (mem_owned.mp hm).1
  refine ⟨?_, fun m hm => ?_, fun m k hm => ?_, fun k => ?_⟩
  · have hrings := F.rings.insertBefore (i := h) hnode
    have hlists : (fun k => (owned (uselist ++ [n]) (update owner n (some h)) k).map
        Node.msg) = update (fun k => (owned uselist owner k).map Node.msg) h
          ((owned uselist owner h).map .msg ++ [.msg n]) := by
      funext k
      by_cases hk : k = h
      · rw [hk, update_self, hsame, map_append]
        rfl
      · rw [update_of_ne hk, hother k hk]
    rw [hlists]
    exact hrings
  · have hmn : m ≠ n := by
      rintro rfl
      rw [update_self] at hm
      cases hm
    rw [update_of_ne hmn] at hm
    exact F.rings.loose_insertBefore (i := h) (F.loose m hm) (fun heq => hmn (Node.msg.inj heq))
      fun j => by simp
  · by_cases hmn : m = n
    · rw [hmn, update_self] at hm
      cases hm
      exact ⟨hmn ▸ mem_append_right _ (mem_singleton_self _), hconnected⟩
    · rw [update_of_ne hmn] at hm
      exact ⟨mem_append_left _ (F.waits m k hm).1, (F.waits m k hm).2⟩
  · by_cases hk : k = h
    · rw [hk, update_self, F.msgs, hsame, length_append]
      rfl
    · rw [update_of_ne hk, F.msgs, hother k hk]

/-- A header without messages is connected or disconnected. -/
theorem setConnected (hnone : owned uselist owner h = [])
    (on : Bool) : Filed uselist owner (update connected h on) (update msgs h 0) hdrlist := by
  refine ⟨F.rings, F.loose, fun m k hm => ?_, fun k => ?_⟩
  · obtain ⟨hin, hconnected⟩ := F.waits m k hm
    have hk : k ≠ h := by
      rintro rfl
      have hmem := mem_owned.mpr ⟨hin, hm⟩
      rw [hnone] at hmem
      exact not_mem_nil hmem
    exact ⟨hin, by rw [update_of_ne hk]; exact hconnected⟩
  · by_cases hk : k = h
    · rw [hk, update_self, hnone]
      rfl
    · rw [update_of_ne hk]
      exact F.msgs k

/-- The head of a header without messages is linked to itself. -/
theorem loose_head (hnone : owned uselist owner h = []) : hdrlist.Loose (.head h) := by
  have hring := F.rings.ring h
  rw [hnone] at hring
  exact Links.ring_nil hring

/-- The node behind the head of a header is the first of its messages. -/
theorem next_head {rest : List Nat}
    (hfirst : owned uselist owner h = n :: rest) : hdrlist.next (.head h) = .msg n := by
  have hring := F.rings.ring h
  rw [hfirst] at hring
  exact (hring.link (f := []) (k := (n :: rest).map Node.msg) rfl rfl).1

end

end Filed

namespace Can

variable {τ : Type*}

section

variable [DecidableEq τ]

def setPhase (s : Can τ) (t : τ) (phase : Phase) : Can τ :=
  { s with phase := update s.phase t phase }

end

/-- The header that an index stands for. -/
def hdrOf (s : Can τ) (hdr : Int) : Option Nat :=
  if 0 ≤ hdr ∧ hdr < s.maxhdr then some hdr.toNat else none

/-- A message leaves the list of its header. -/
def unlink (s : Can τ) (listmsg : Nat) : Can τ :=
  { s with
    hdrlist := s.hdrlist.remove (.msg listmsg)
    msgs :=
      match s.owner listmsg with
      | some hdr => update s.msgs hdr (s.msgs hdr - 1)
      | none => s.msgs
    owner := update s.owner listmsg none }

/-- The first critical section of `_can_int_rx`: the message it takes, if any. -/
def take (s : Can τ) (hdr : Int) : Option (Option Nat × Can τ) :=
  match s.hdrOf hdr with
  | some h =>
    match s.hdrlist.next (.head h) with
    | .msg listmsg =>
      some (some listmsg, { s with
        uselist := s.uselist.erase listmsg
        hdrlist := s.hdrlist.remove (.msg listmsg)
        msgs := update s.msgs h (s.msgs h - 1)
        owner := update s.owner listmsg none })
    | .head h' => if h' = h then some (none, s) else none
  | none =>
    if hdr = -1 then
      match s.uselist with
      | listmsg :: rest => some (some listmsg, unlink { s with uselist := rest } listmsg)
      | [] => some (none, s)
    else some (none, s)

/-- `RT_CAN_CMD_SET_FILTER`: a header that is connected is disconnected. -/
def disconnect (s : Can τ) (h : Nat) : Can τ :=
  if s.connected h then
    { s with
      connected := update s.connected h false
      msgs := update s.msgs h 0
      hdrlist :=
        if s.hdrlist.next (.head h) = .head h then s.hdrlist
        else s.hdrlist.remove (s.hdrlist.next (.head h)) }
  else s

/-- The second critical section for a header that was not connected. -/
def connect (s : Can τ) (h : Nat) : Can τ :=
  { s with
    connected := update s.connected h true
    msgs := update s.msgs h 0
    hdrlist := s.hdrlist.init (.head h) }

/-- The list that `rt_hw_can_isr` puts a message into, next to `uselist`. -/
def insert (s : Can τ) (listmsg h : Nat) : Can τ :=
  let s := { s with
    uselist := s.uselist ++ [listmsg]
    stamp := update s.stamp listmsg s.arrived
    arrived := s.arrived + 1 }
  if s.connected h then
    { s with
      hdrlist := s.hdrlist.insertBefore (.head h) (.msg listmsg)
      owner := update s.owner listmsg (some h)
      msgs := update s.msgs h (s.msgs h + 1) }
  else s

/-- `rt_hw_can_isr` for `RT_CAN_EVENT_RX_IND` and `RT_CAN_EVENT_RXOF_IND`, where `recvmsg` has
returned a message for a filter; no thread runs until it ends. -/
def rtHwCanIsr (s : Can τ) (hdr : Int) : Option (Can τ) :=
  match s.freelist with
  | listmsg :: rest =>
    (s.hdrOf hdr).map fun h => (unlink { s with freelist := rest } listmsg).insert listmsg h
  | [] =>
    match s.uselist with
    | listmsg :: rest =>
      (s.hdrOf hdr).map fun h => (unlink { s with uselist := rest } listmsg).insert listmsg h
    | [] => some s

section

variable [DecidableEq τ]

/-- The next step of a thread. -/
def next (s : Can τ) (t : τ) : Option (Can τ) :=
  match s.phase t with
  | .idle => none
  | .loops [] => some (s.setPhase t .idle)
  | .loops (hdr :: hdrs) =>
    (s.take hdr).map fun r =>
      match r with
      | (some listmsg, s) => s.setPhase t (.frees listmsg hdrs)
      | (none, s) => s.setPhase t .idle
  | .frees listmsg hdrs =>
    some (setPhase { s with freelist := s.freelist ++ [listmsg] } t (.loops hdrs))
  | .filters _ [] => some (s.setPhase t .idle)
  | .filters actived (item :: items) =>
    match s.hdrOf item with
    | none => some (s.setPhase t (.filters actived items))
    | some h =>
      if actived then
        some (s.setPhase t (if s.connected h then .filters actived items else .connects h items))
      else some ((s.disconnect h).setPhase t (.filters actived items))
  | .connects h items => some ((s.connect h).setPhase t (.filters true items))

/-- What may happen. -/
inductive Act (τ : Type*)
  | read (t : τ) (hdrs : List Int)
  | setFilter (t : τ) (actived : Bool) (items : List Int)
  | next (t : τ)
  | isr (hdr : Int)

/-- One step of a run; the driver has set the filters. -/
def exec (s : Can τ) : Act τ → Option (Can τ)
  | .read t hdrs => if s.phase t = .idle then some (s.setPhase t (.loops hdrs)) else none
  | .setFilter t actived items =>
    if s.phase t = .idle then some (s.setPhase t (.filters actived items)) else none
  | .next t => s.next t
  | .isr hdr => s.rtHwCanIsr hdr

end

/-- `rt_can_open` has been called. -/
structure Initial (s : Can τ) : Prop where
  freelist : s.freelist = List.range s.msgboxsz
  uselist : s.uselist = []
  hdrlist : ∀ x, s.hdrlist.Loose x
  owner : ∀ n, s.owner n = none
  hdr : ∀ h, s.connected h = false ∧ s.msgs h = 0
  phase : ∀ t, s.phase t = .idle

structure Kept (s : Can τ) : Prop where
  /-- The list of a header has the messages of `uselist` that it owns, in their order. -/
  list : ∀ h, Ring s.hdrlist.next s.hdrlist.prev (.head h) ((owned s.uselist s.owner h).map .msg)
  /-- They wait in the order in which they have arrived. -/
  order : s.uselist.Pairwise fun a b => s.stamp a < s.stamp b
  msgs : ∀ h, s.msgs h = (owned s.uselist s.owner h).length
  /-- No message points to a header that is not connected. -/
  gone : ∀ h n, s.connected h = false → s.owner n ≠ some h

/-- A header is disconnected or made ready only while no message is in its list. -/
def Careful (s : Can τ) : Act τ → Prop
  | .next t =>
    match s.phase t with
    | .filters false (item :: _) =>
      ∀ h ∈ s.hdrOf item, s.connected h = true → owned s.uselist s.owner h = []
    | .connects h _ => owned s.uselist s.owner h = []
    | _ => True
  | .read _ _ | .setFilter _ _ _ | .isr _ => True

/-- What holds of the messages that wait. -/
structure Stored (s : Can τ) : Prop where
  filed : Filed s.uselist s.owner s.connected s.msgs s.hdrlist
  order : s.uselist.Pairwise fun a b => s.stamp a < s.stamp b
  stamp : ∀ n ∈ s.uselist, s.stamp n < s.arrived

structure Sound (s : Can τ) : Prop extends Stored s where
  placed : Placed s.msgboxsz (s.freelist ++ s.uselist) fun t => (s.phase t).node

variable {s t : Can τ} {n : Nat} {hdr : Int}

theorem Sound.kept (h : Sound s) : Kept s := by
  refine ⟨h.filed.rings.ring, h.order, h.filed.msgs, fun k n hoff howner => ?_⟩
  rw [(h.filed.waits n k howner).2] at hoff
  cases hoff

theorem Initial.sound (h : Initial s) : Sound s := by
  have howned : ∀ k, owned s.uselist s.owner k = [] := by
    intro k
    rw [h.uselist]
    rfl
  refine ⟨⟨⟨⟨fun k => ?_, fun k => ?_, fun j k hne x hx hx' => ?_⟩, fun n _ => h.hdrlist _,
    fun n k hn => ?_, fun k => ?_⟩, ?_, ?_⟩, ?_⟩
  · rw [howned]
    exact (h.hdrlist _).ring
  · rw [howned]
    exact nodup_singleton _
  · rw [howned] at hx hx'
    have heq := (mem_singleton.mp hx).symm.trans (mem_singleton.mp hx')
    cases heq
    exact hne rfl
  · rw [h.owner] at hn
    cases hn
  · rw [howned, (h.hdr k).2]
    rfl
  · rw [h.uselist]
    exact List.Pairwise.nil
  · rw [h.uselist]
    exact fun n hn => absurd hn not_mem_nil
  · rw [h.freelist, h.uselist, append_nil]
    exact .range fun t => by rw [h.phase]; rfl

theorem Sound.nodup (h : Sound s) : s.uselist.Nodup := h.placed.nodup.of_append_right

theorem Stored.unlink {l₁ l₂ : List Nat} (h : Stored s) (hnodup : s.uselist.Nodup)
    (huse : s.uselist = l₁ ++ n :: l₂) : Stored (Can.unlink { s with uselist := l₁ ++ l₂ } n) := by
  obtain ⟨hfiled, horder, hstamp⟩ := h
  rw [huse] at hfiled hnodup horder hstamp
  have hsub : (l₁ ++ l₂).Sublist (l₁ ++ n :: l₂) := (sublist_cons_self n l₂).append_left l₁
  refine ⟨?_, horder.sublist hsub, fun m hm => hstamp m (hsub.subset hm)⟩
  unfold Can.unlink
  cases hn : s.owner n with
  | some k => exact hfiled.takeOwned hnodup hn
  | none =>
    have howner := update_eq_self n s.owner
    rw [hn] at howner
    rw [howner, Links.remove_of_loose (hfiled.loose n hn)]
    exact hfiled.takeFree hn

theorem Stored.unlink_free (h : Stored s) (hn : n ∉ s.uselist) : s.unlink n = s := by
  have hfree := h.filed.free hn
  have howner := update_eq_self n s.owner
  rw [hfree] at howner
  unfold Can.unlink
  simp only [hfree]
  rw [howner, Links.remove_of_loose (h.filed.loose n hfree)]

/-- A message is stored in a node that is in no list. -/
theorem Stored.insert (h : Stored s) (hn : n ∉ s.uselist) (k : Nat) :
    Stored (s.insert n k) := by
  have hold : ∀ m ∈ s.uselist, update s.stamp n s.arrived m = s.stamp m := by
    intro m hm
    refine update_of_ne ?_ _ _
    rintro rfl
    exact hn hm
  have horder : (s.uselist ++ [n]).Pairwise fun a b =>
      update s.stamp n s.arrived a < update s.stamp n s.arrived b := by
    refine pairwise_append.mpr ⟨?_, pairwise_singleton _ n, fun a ha b hb => ?_⟩
    · refine h.order.imp_of_mem fun {a b} ha hb hlt => ?_
      rw [hold a ha, hold b hb]
      exact hlt
    · obtain rfl := mem_singleton.mp hb
      rw [hold a ha, update_self]
      exact h.stamp a ha
  have hstamp : ∀ m ∈ s.uselist ++ [n], update s.stamp n s.arrived m < s.arrived + 1 := by
    intro m hm
    rcases mem_append.mp hm with hm | hm
    · rw [hold m hm]
      exact Nat.lt_succ_of_lt (h.stamp m hm)
    · obtain rfl := mem_singleton.mp hm
      rw [update_self]
      exact Nat.lt_succ_self _
  unfold Can.insert
  dsimp only
  split_ifs with hconnected
  · exact ⟨h.filed.appendOwned hn hconnected, horder, hstamp⟩
  · exact ⟨h.filed.append hn, horder, hstamp⟩

theorem insert_lists (s : Can τ) (n k : Nat) : (s.insert n k).uselist = s.uselist ++ [n] ∧
    (s.insert n k).freelist = s.freelist ∧ (s.insert n k).phase = s.phase ∧
    (s.insert n k).msgboxsz = s.msgboxsz := by
  unfold Can.insert
  dsimp only
  split_ifs <;> exact ⟨rfl, rfl, rfl, rfl⟩

theorem Sound.rtHwCanIsr (h : Sound s) (hisr : s.rtHwCanIsr hdr = some t) : Sound t := by
  have hnodup := h.placed.nodup
  unfold Can.rtHwCanIsr at hisr
  split at hisr
  · next n rest hfree =>
    rw [hfree] at hnodup
    obtain ⟨k, -, rfl⟩ := map_eq_some_iff.mp hisr
    have hn : n ∉ s.uselist := fun hin =>
      (nodup_cons.mp hnodup).1 (mem_append_right rest hin)
    have hstored : Stored { s with freelist := rest } := ⟨h.filed, h.order, h.stamp⟩
    rw [hstored.unlink_free hn]
    obtain ⟨huse, hfree', hphase, hsize⟩ := insert_lists { s with freelist := rest } n k
    refine ⟨hstored.insert hn k, ?_⟩
    rw [huse, hfree', hphase, hsize]
    refine h.placed.perm ?_ fun _ => rfl
    rw [hfree, ← append_assoc]
    exact perm_append_singleton n (rest ++ s.uselist)
  · split at hisr
    · next n rest huse =>
      obtain ⟨k, -, rfl⟩ := map_eq_some_iff.mp hisr
      have huses := h.nodup
      rw [huse] at huses
      have hstored : Stored (Can.unlink { s with uselist := rest } n) :=
        h.toStored.unlink h.nodup (show s.uselist = [] ++ n :: rest from huse)
      obtain ⟨huse', hfree', hphase, hsize⟩ :=
        insert_lists (Can.unlink { s with uselist := rest } n) n k
      refine ⟨hstored.insert (nodup_cons.mp huses).1 k, ?_⟩
      rw [huse', hfree', hphase, hsize]
      refine h.placed.perm ?_ fun _ => rfl
      rw [huse]
      exact (perm_append_singleton n rest).append_left s.freelist
    · cases hisr
      exact h

/-- A read takes nothing, or a message out of `uselist`. -/
theorem Sound.take_cases {r : Option Nat × Can τ} (h : Sound s)
    (htake : s.take hdr = some r) : r = (none, s) ∨
      ∃ l₁ n l₂, s.uselist = l₁ ++ n :: l₂ ∧
        r = (some n, Can.unlink { s with uselist := l₁ ++ l₂ } n) := by
  unfold Can.take at htake
  split at htake
  · next k hk =>
    cases hfirst : owned s.uselist s.owner k with
    | nil =>
      rw [(h.filed.loose_head hfirst).1] at htake
      dsimp only at htake
      rw [if_pos rfl] at htake
      exact .inl (some.inj htake).symm
    | cons n rest =>
      rw [h.filed.next_head hfirst] at htake
      have hn : n ∈ owned s.uselist s.owner k := hfirst ▸ mem_cons_self
      obtain ⟨hin, howner⟩ := mem_owned.mp hn
      obtain ⟨l₁, l₂, huse⟩ := append_of_mem hin
      refine .inr ⟨l₁, n, l₂, huse, ?_⟩
      have herase : s.uselist.erase n = l₁ ++ l₂ := by
        have hnodup := h.nodup
        rw [huse] at hnodup
        have hout : n ∉ l₁ := fun hin =>
          (nodup_append.mp hnodup).2.2 n hin n (.head _) rfl
        rw [huse, erase_append_right _ hout, erase_cons_head]
      rw [← some.inj htake, herase]
      unfold Can.unlink
      simp only [howner]
  · split_ifs at htake
    · split at htake
      · next n rest huse => exact .inr ⟨[], n, rest, huse, (some.inj htake).symm⟩
      · exact .inl (some.inj htake).symm
    · exact .inl (some.inj htake).symm

variable [DecidableEq τ] {u : τ} {phase : Phase}

theorem node_update (s : Can τ) (u : τ) (phase : Phase) (v : τ) :
    (update s.phase u phase v).node = if v = u then phase.node else (s.phase v).node := by
  by_cases hv : v = u
  · rw [hv, update_self, if_pos rfl]
  · rw [update_of_ne hv, if_neg hv]

section

variable (h : Sound s) {hdrs : List Int} {k : Nat}
include h

theorem Sound.goes (hnone : (s.phase u).node = none) (hphase : phase.node = none) :
    Sound (s.setPhase u phase) := by
  refine ⟨⟨h.filed, h.order, h.stamp⟩, h.placed.perm (.refl _) fun v => ?_⟩
  dsimp only [setPhase]
  rw [node_update, hphase]
  by_cases hv : v = u
  · rw [if_pos hv, hv, hnone]
  · rw [if_neg hv]

theorem Sound.loops {hdr : Int} (hu : s.phase u = .loops (hdr :: hdrs))
    (hnext : s.next u = some t) : Sound t := by
  have hnone : (s.phase u).node = none := by
    rw [hu]
    rfl
  unfold Can.next at hnext
  rw [hu] at hnext
  obtain ⟨r, htake, hr⟩ := map_eq_some_iff.mp hnext
  rcases h.take_cases htake with rfl | ⟨l₁, n, l₂, huse, rfl⟩
  · dsimp only at hr
    rw [← hr]
    exact h.goes hnone rfl
  · dsimp only at hr
    rw [← hr]
    obtain ⟨hfiled, horder, hstamp⟩ := h.toStored.unlink h.nodup huse
    refine ⟨⟨hfiled, horder, hstamp⟩, ?_⟩
    refine h.placed.take (u := u) (n := n) ?_ hnone fun v => node_update s u (.frees n hdrs) v
    rw [huse]
    show (s.freelist ++ (l₁ ++ n :: l₂)).Perm (n :: (s.freelist ++ (l₁ ++ l₂)))
    rw [← append_assoc, ← append_assoc]
    exact perm_middle

theorem Sound.frees {n : Nat} (hu : s.phase u = .frees n hdrs) :
    Sound (setPhase { s with freelist := s.freelist ++ [n] } u (.loops hdrs)) := by
  refine ⟨⟨h.filed, h.order, h.stamp⟩, ?_⟩
  refine h.placed.put (u := u) (n := n) ?_ (by rw [hu]; rfl) fun v => node_update s u (.loops hdrs) v
  show (s.freelist ++ [n] ++ s.uselist).Perm (n :: (s.freelist ++ s.uselist))
  rw [append_assoc]
  exact perm_middle

omit [DecidableEq τ] in
theorem Sound.connect (hnone : owned s.uselist s.owner k = []) : Sound (s.connect k) := by
  have hinit := Links.init_of_loose (h.filed.loose_head hnone)
  refine ⟨⟨?_, h.order, h.stamp⟩, h.placed⟩
  dsimp only [Can.connect]
  rw [hinit]
  exact h.filed.setConnected hnone true

omit [DecidableEq τ] in
theorem Sound.disconnect
    (hnone : s.connected k = true → owned s.uselist s.owner k = []) : Sound (s.disconnect k) := by
  unfold Can.disconnect
  split_ifs with hconnected hloose
  · exact ⟨⟨h.filed.setConnected (hnone hconnected) false, h.order, h.stamp⟩, h.placed⟩
  · exact absurd (h.filed.loose_head (hnone hconnected)).1 hloose
  · exact h

theorem Sound.next (hcareful : Careful s (.next u)) (hnext : s.next u = some t) : Sound t := by
  cases hu : s.phase u with
  | loops hdrs =>
    cases hdrs with
    | nil =>
      unfold Can.next at hnext
      rw [hu] at hnext
      cases hnext
      exact h.goes (by rw [hu]; rfl) rfl
    | cons hdr hdrs => exact h.loops hu hnext
  | idle =>
    unfold Can.next at hnext
    rw [hu] at hnext
    cases hnext
  | frees n hdrs =>
    unfold Can.next at hnext
    rw [hu] at hnext
    cases hnext
    exact h.frees hu
  | connects k items =>
    simp only [Careful, hu] at hcareful
    unfold Can.next at hnext
    rw [hu] at hnext
    cases hnext
    exact (h.connect hcareful).goes (s := s.connect k) (by show (s.phase u).node = none; rw [hu]; rfl) rfl
  | filters actived items =>
    have hnone : (s.phase u).node = none := by rw [hu]; rfl
    unfold Can.next at hnext
    rw [hu] at hnext
    cases items with
    | nil =>
      cases hnext
      exact h.goes hnone rfl
    | cons item items =>
      simp only [Careful, hu] at hcareful
      dsimp only at hnext
      cases hitem : s.hdrOf item with
      | none =>
        rw [hitem] at hnext
        cases hnext
        exact h.goes hnone rfl
      | some k =>
        rw [hitem] at hnext
        cases actived with
        | true =>
          cases hnext
          split_ifs
          all_goals exact h.goes hnone rfl
        | false =>
          cases hnext
          have hphase : (s.disconnect k).phase = s.phase := by
            unfold Can.disconnect
            split_ifs <;> rfl
          refine (h.disconnect fun hconnected => hcareful k hitem hconnected).goes ?_ rfl
          rw [hphase]
          exact hnone

theorem Sound.exec {a : Act τ} (hcareful : Careful s a) (hexec : s.exec a = some t) : Sound t := by
  cases a with
  | read u hdrs | setFilter u actived items =>
    obtain ⟨hidle, hexec⟩ := ite_none_right_eq_some.mp hexec
    cases hexec
    exact h.goes (by rw [hidle]; rfl) rfl
  | next u => exact h.next hcareful hexec
  | isr hdr => exact h.rtHwCanIsr hexec

end

/-- A step against the condition leaves messages that point to their header. -/
theorem not_kept_of_not_careful {a : Act τ} (hcareful : ¬ Careful s a)
    (hexec : s.exec a = some t) : ¬ Kept t := by
  intro hkept
  cases a with
  | read u hdrs | setFilter u actived items | isr hdr => exact hcareful trivial
  | next u =>
    change s.next u = some t at hexec
    unfold Can.next at hexec
    cases hu : s.phase u with
    | idle | loops hdrs | frees n hdrs => simp [Careful, hu] at hcareful
    | connects k items =>
      simp only [Careful, hu] at hcareful
      rw [hu] at hexec
      cases hexec
      have hmsgs : update s.msgs k 0 k = (owned s.uselist s.owner k).length := hkept.msgs k
      rw [update_self] at hmsgs
      exact hcareful (length_eq_zero_iff.mp hmsgs.symm)
    | filters actived items =>
      cases items with
      | nil => cases actived <;> simp [Careful, hu] at hcareful
      | cons item items =>
        cases actived with
        | true => simp [Careful, hu] at hcareful
        | false =>
          simp only [Careful, hu, not_forall] at hcareful
          obtain ⟨k, hk, hconnected, howned⟩ := hcareful
          obtain ⟨n, hn⟩ := exists_mem_of_ne_nil _ howned
          rw [hu] at hexec
          dsimp only at hexec
          rw [show s.hdrOf item = some k from hk] at hexec
          cases hexec
          have hdone : (s.disconnect k).connected k = false ∧ (s.disconnect k).owner = s.owner := by
            unfold Can.disconnect
            rw [if_pos hconnected]
            exact ⟨update_self .., rfl⟩
          refine hkept.gone k n hdone.1 ?_
          show (s.disconnect k).owner n = some k
          rw [hdone.2]
          exact (mem_owned.mp hn).2

/-- Where headers are connected and disconnected only while no message is in their lists, the lists,
counts and owners agree; and a step keeps that just where it meets the condition. -/
theorem reachable_hdrsKept (s : Can τ)
    (h : Reachable Initial (Within (fun s a t => s.exec a = some t) Careful) s) :
    Kept s ∧ ∀ a t, s.exec a = some t → (Kept t ↔ Careful s a) := by
  have hsound : Sound s :=
    h.inductWithin (·.sound) (·.exec)
  refine ⟨hsound.kept, fun a t hexec => ⟨fun hkept => ?_, fun hcareful => ?_⟩⟩
  · by_contra hcareful
    exact not_kept_of_not_careful hcareful hexec hkept
  · exact (hsound.exec hcareful hexec).kept

instance decidableCareful (s : Can τ) (a : Act τ) : Decidable (Careful s a) :=
  match a with
  | .next t =>
    match hphase : s.phase t with
    | .filters false (item :: _) =>
      decidable_of_iff (∀ h ∈ s.hdrOf item, s.connected h = true → owned s.uselist s.owner h = [])
        (by simp [Careful, hphase])
    | .connects h _ =>
      decidable_of_iff (owned s.uselist s.owner h = []) (by simp [Careful, hphase])
    | .idle | .loops _ | .frees _ _ | .filters true _ | .filters false [] =>
      .isTrue (by simp [Careful, hphase])
  | .read _ _ | .setFilter _ _ _ | .isr _ => .isTrue trivial

/-- A device that has just been opened. -/
def opened (msgboxsz maxhdr : Nat) : Can (Fin 2) where
  msgboxsz := msgboxsz
  maxhdr := maxhdr
  freelist := List.range msgboxsz
  uselist := []
  hdrlist := { next := id, prev := id }
  owner := fun _ => none
  connected := fun _ => false
  msgs := fun _ => 0
  phase := fun _ => .idle
  arrived := 0
  stamp := fun _ => 0

theorem opened_initial (msgboxsz maxhdr : Nat) : Initial (opened msgboxsz maxhdr) :=
  ⟨rfl, rfl, fun _ => ⟨rfl, rfl⟩, fun _ => rfl, fun _ => ⟨rfl, rfl⟩, fun _ => rfl⟩

/-- Two filters, messages for either, and reads from one of them and of any. -/
def twoFilters : List (Act (Fin 2)) :=
  [.setFilter 0 true [0, 1], .next 0, .next 0, .next 0, .next 0, .next 0, .isr 0, .isr 1, .isr 0,
    .read 1 [1, -1], .next 1, .next 1, .next 1, .isr 1, .next 1]

/-- Two filters with one message each. -/
theorem reachable_hdrsKept_two : ∃ s : Can (Fin 2), s.uselist = [2, 3] ∧
    owned s.uselist s.owner 0 = [2] ∧ owned s.uselist s.owner 1 = [3] ∧
    (Kept s ∧ ∀ a t, s.exec a = some t → (Kept t ↔ Careful s a)) := by
  obtain ⟨s, hs, huse, hfirst, hsecond⟩ :
      ∃ s ∈ runWithin exec Careful (opened 4 2) twoFilters, s.uselist = [2, 3] ∧
      owned s.uselist s.owner 0 = [2] ∧ owned s.uselist s.owner 1 = [3] := by decide +kernel
  have hstart := (Reachable.start (opened_initial 4 2)).runWithin hs
  exact ⟨s, huse, hfirst, hsecond, reachable_hdrsKept s hstart⟩

/-- Two messages wait for a filter when it is disconnected. -/
def disconnectFull : List (Act (Fin 2)) :=
  [.setFilter 0 true [0], .next 0, .next 0, .next 0, .isr 0, .isr 0, .setFilter 0 false [0], .next 0]

/-- Two threads connect a filter, and a message comes in between. -/
def connectTwice : List (Act (Fin 2)) :=
  [.setFilter 0 true [0], .setFilter 1 true [0], .next 0, .next 1, .next 0, .isr 0, .next 1]

/-- Of two messages only the first leaves the list of a header that is disconnected, and both still
point to it. And the list of a header is made empty while a message of that header waits. -/
theorem pointsTo_not_kept :
    (∃ s : Can (Fin 2), Reachable Initial (fun s a t => s.exec a = some t) s ∧
      s.uselist = [0, 1] ∧ s.connected 0 = false ∧ s.hdrlist.next (.head 0) = .msg 1 ∧
      s.owner 0 = some 0 ∧ s.owner 1 = some 0 ∧ ¬ Kept s) ∧
    ∃ s : Can (Fin 2), Reachable Initial (fun s a t => s.exec a = some t) s ∧
      s.owner 0 = some 0 ∧ s.uselist = [0] ∧ s.connected 0 = true ∧ s.msgs 0 = 0 ∧
      s.hdrlist.next (.head 0) = .head 0 ∧ ¬ Kept s := by
  obtain ⟨s, hs, huse, hoff, hnext, hfirst, hsecond⟩ :
      ∃ s ∈ runAll exec (opened 2 1) disconnectFull, s.uselist = [0, 1] ∧
      s.connected 0 = false ∧ s.hdrlist.next (.head 0) = .msg 1 ∧ s.owner 0 = some 0 ∧
      s.owner 1 = some 0 := by decide +kernel
  obtain ⟨s', hs', howner, huse', hon, hmsgs, hnext'⟩ :
      ∃ s ∈ runAll exec (opened 2 1) connectTwice, s.owner 0 = some 0 ∧
      s.uselist = [0] ∧ s.connected 0 = true ∧ s.msgs 0 = 0 ∧
      s.hdrlist.next (.head 0) = .head 0 := by decide +kernel
  have hopened : Reachable Initial (fun s a t => exec s a = some t) (opened 2 1) :=
    Reachable.start (opened_initial 2 1)
  refine ⟨⟨s, hopened.runAll hs, huse, hoff, hnext, hfirst, hsecond, fun hkept => ?_⟩,
    s', hopened.runAll hs', howner, huse', hon, hmsgs, hnext', fun hkept => ?_⟩
  · exact hkept.gone 0 0 hoff hfirst
  · have hcount := hkept.msgs 0
    rw [hmsgs, huse'] at hcount
    simp [owned, howner] at hcount

end Can

end RtKernel.CanHdr
