import Mathlib.Data.List.ReduceOption
import Mathlib.Data.Nat.Count

/-!
# Acceptance filters

Filters that come without a bank are given the free banks one after the other. The data of the
items is stored in their order, and written to the selected banks in the order of the banks.
-/

open List

namespace RtKernel.CanFilter

open Function

/-- `FILTER_COUNT`. -/
def filterCount : Nat := 8

/-- `struct rt_can_filter_item`, where an `hdr` of `-1` is none. -/
structure Item where
  id : UInt32
  ide : Bool
  mask : UInt32
  hdr : Option Nat
  deriving DecidableEq

/-- `stc_can_filter_config_t`. -/
structure Filter where
  u32ID : UInt32
  u32IDMask : UInt32
  u32IDType : UInt32
  deriving DecidableEq

/-- `CAN_ID_STD`. -/
def canIdStd : UInt32 := 0x40000000

/-- `CAN_ID_EXT`. -/
def canIdExt : UInt32 := 0x60000000

/-- The device, with its registers. -/
structure Can where
  pstcFilter : Nat → Filter
  u16FilterSelect : Nat
  /-- `ACF` of each bank, without and with `SELMASK`. -/
  acf : Nat → UInt32 × UInt32
  acfen : Nat

/-- What the driver makes of an item. -/
def Item.filter (item : Item) : Filter :=
  { u32ID := item.id &&& 0x1FFFFFFF
    u32IDMask := ~~~item.mask &&& 0x1FFFFFFF
    u32IDType := if item.ide then canIdExt else canIdStd }

/-- What is written to a bank. -/
def Filter.acf (f : Filter) : UInt32 × UInt32 := (f.u32ID, f.u32IDMask ||| f.u32IDType)

/-- The identifier, the inverted mask and the type of identifier, as a bank has them. -/
def Item.acf (item : Item) : UInt32 × UInt32 := item.filter.acf

/-- The bank of an item is selected, if it asks for one. -/
def select (sel : Nat) (item : Item) : Nat :=
  match item.hdr with
  | some hdr => sel ||| 1 <<< hdr
  | none => sel

/-- The banks that the items ask for. -/
def selectRequested (items : List Item) : Nat := items.foldl select 0

/-- The first bank that is not selected. -/
def firstFree (sel : Nat) : Option Nat := (List.range filterCount).find? fun j => ! sel.testBit j

/-- The items without a bank are given the first free ones. -/
def assignFree : List Item → Nat → List Item × Nat
  | [], sel => ([], sel)
  | item :: items, sel =>
    match item.hdr, firstFree sel with
    | none, some j =>
      let (rest, sel) := assignFree items (sel ||| 1 <<< j)
      ({ item with hdr := some j } :: rest, sel)
    | _, _ =>
      let (rest, sel) := assignFree items sel
      (item :: rest, sel)

/-- `_get_filter_idx`. -/
def getFilterIdx (items : List Item) : List Item × Nat := assignFree items (selectRequested items)

/-- The loop of `CAN_FilterConfig` over the selected banks. -/
def canFilterConfig (pstcFilter : Nat → Filter) (u16FilterSelect filterAddr i : Nat)
    (acf : Nat → UInt32 × UInt32) : Nat → UInt32 × UInt32 :=
  if h : u16FilterSelect = 0 then acf
  else if u16FilterSelect % 2 = 1 then
    canFilterConfig pstcFilter (u16FilterSelect / 2) (filterAddr + 1) (i + 1)
      (update acf filterAddr (pstcFilter i).acf)
  else canFilterConfig pstcFilter (u16FilterSelect / 2) (filterAddr + 1) i acf
termination_by u16FilterSelect

/-- The part of `CAN_Init` that has to do with filters. -/
def canInit (can : Can) : Can :=
  { can with
    acf := canFilterConfig can.pstcFilter can.u16FilterSelect 0 0 can.acf
    acfen := can.u16FilterSelect }

/-- `RT_EINVAL`. -/
def rtEinval : Int := 10

/-- `_can_control` with `RT_CAN_CMD_SET_FILTER`, which writes the banks back to the items. -/
def setFilter (can : Can) (items : List Item) : Option (List Item × Can × Int) :=
  if items.length = 0 then some (items, can, -rtEinval)
  else if items.length ≤ filterCount then
    let (items, sel) := getFilterIdx items
    let pstcFilter := fun i => if h : i < items.length then items[i].filter else can.pstcFilter i
    some (items, canInit { can with u16FilterSelect := sel, pstcFilter := pstcFilter }, 0)
  else none -- RT_ASSERT(filter_cfg->count <= FILTER_COUNT)

/-- The free banks are given to those without one. -/
def assign : List (Option Nat) → List Nat → List (Option Nat)
  | [], _ => []
  | some hdr :: hdrs, free => some hdr :: assign hdrs free
  | none :: hdrs, [] => none :: assign hdrs []
  | none :: hdrs, j :: free => some j :: assign hdrs free

/-- The bank of each item: the one it asks for, or the next one that no item asks for. -/
def banks (items : List Item) : List (Option Nat) :=
  assign (items.map Item.hdr)
    ((List.range filterCount).filter fun j => !(items.map Item.hdr).contains (some j))

/-- The items ask for distinct banks that there are. -/
structure Valid (items : List Item) : Prop where
  nodup : ((items.map Item.hdr).reduceOption).Nodup
  lt : ∀ j, some j ∈ items.map Item.hdr → j < filterCount

/-- Where a bank has so many taken banks below it, the item with this index is as the item of the
bank. -/
def InOrder (items : List Item) : Prop :=
  ∀ i j : Nat, (banks items)[i]? = some (some j) →
    items[Nat.count (fun k => (banks items).contains (some k)) j]?.map Item.acf = items[i]?.map Item.acf

/-- Each item has its own bank, is in it, and no other banks are enabled or written. -/
structure Programmed (can : Can) (items' : List Item) (can' : Can) : Prop where
  bank : ∀ item ∈ items', ∃ j < filterCount, item.hdr = some j
  distinct : (items'.map Item.hdr).Nodup
  enabled : ∀ j, can'.acfen.testBit j = true ↔ some j ∈ items'.map Item.hdr
  others : ∀ j, can'.acfen.testBit j = false → can'.acf j = can.acf j
  written : ∀ item ∈ items', ∀ j, item.hdr = some j → can'.acf j = item.acf

variable {items : List Item} {sel : Nat} {j : Nat}

theorem testBit_select (sel j k : Nat) :
    (sel ||| 1 <<< j).testBit k = true ↔ sel.testBit k = true ∨ j = k := by
  rw [Nat.testBit_or, Nat.one_shiftLeft, Nat.testBit_two_pow, Bool.or_eq_true, decide_eq_true_eq]

theorem testBit_selectRequested (items : List Item) (k : Nat) :
    (selectRequested items).testBit k = true ↔ some k ∈ items.map Item.hdr := by
  have hfold : ∀ sel, (items.foldl select sel).testBit k = true ↔
      sel.testBit k = true ∨ some k ∈ items.map Item.hdr := by
    induction items with
    | nil => simp
    | cons item items ih =>
      intro sel
      rw [foldl_cons, ih, map_cons, mem_cons, select]
      cases item.hdr with
      | none => simp
      | some hdr =>
        rw [testBit_select, Option.some.injEq, or_assoc, eq_comm (a := k)]
  have hstart := hfold 0
  rw [Nat.zero_testBit] at hstart
  exact hstart.trans (or_iff_right Bool.false_ne_true)

/-- The banks that are left. -/
def freeBanks (sel : Nat) : List Nat := (List.range filterCount).filter fun j => ! sel.testBit j

theorem nodup_freeBanks (sel : Nat) : (freeBanks sel).Nodup := nodup_range.filter _

theorem firstFree_eq (sel : Nat) : firstFree sel = (freeBanks sel).head? :=
  (List.head?_filter ..).symm

/-- The rest is left when the first one has been given. -/
theorem freeBanks_select {free : List Nat} (h : freeBanks sel = j :: free) :
    freeBanks (sel ||| 1 <<< j) = free := by
  have hnodup := nodup_freeBanks sel
  rw [h, nodup_cons] at hnodup
  have hfilter : freeBanks (sel ||| 1 <<< j) = (freeBanks sel).filter (· ≠ j) := by
    unfold freeBanks
    rw [filter_filter]
    apply filter_congr
    intro k _
    rw [Nat.testBit_or, Nat.one_shiftLeft, Nat.testBit_two_pow, Bool.and_comm]
    simp [eq_comm]
  rw [hfilter, h, filter_cons_of_neg (by simp), filter_eq_self]
  intro k hk
  exact decide_eq_true fun heq => hnodup.1 (heq ▸ hk)

/-- The search gives the free banks in their order, and keeps all else of the items. -/
theorem assignFree_spec (items : List Item) (sel : Nat)
    (hsel : ∀ k, some k ∈ items.map Item.hdr → sel.testBit k = true) :
    (assignFree items sel).1.map Item.hdr = assign (items.map Item.hdr) (freeBanks sel) ∧
      (assignFree items sel).1.map Item.acf = items.map Item.acf ∧
      ∀ k, (assignFree items sel).2.testBit k = true ↔
        sel.testBit k = true ∨ some k ∈ assign (items.map Item.hdr) (freeBanks sel) := by
  induction items generalizing sel with
  | nil => simp [assignFree, assign]
  | cons item items ih =>
    have hrest : ∀ k, some k ∈ items.map Item.hdr → sel.testBit k = true := fun k hk =>
      hsel k (.tail _ hk)
    cases hhdr : item.hdr with
    | some h =>
      obtain ⟨hmap, hacf, hbit⟩ := ih sel hrest
      have hh : sel.testBit h = true := hsel h (by simp [hhdr])
      simp only [assignFree, hhdr, assign, map_cons, hmap, hacf, mem_cons, hbit,
        Option.some.injEq, true_and]
      intro k
      constructor
      · rintro (hk | hk)
        · exact .inl hk
        · exact .inr (.inr hk)
      · rintro (hk | rfl | hk)
        · exact .inl hk
        · exact .inl hh
        · exact .inr hk
    | none =>
      cases hfree : freeBanks sel with
      | nil =>
        obtain ⟨hmap, hacf, hbit⟩ := ih sel hrest
        rw [hfree] at hmap hbit
        have hnone : firstFree sel = none := by rw [firstFree_eq, hfree, List.head?_nil]
        simp [assignFree, hhdr, hnone, assign, hmap, hacf, hbit]
      | cons j free =>
        have hsome : firstFree sel = some j := by rw [firstFree_eq, hfree, List.head?_cons]
        obtain ⟨hmap, hacf, hbit⟩ := ih (sel ||| 1 <<< j) fun k hk =>
          (testBit_select sel j k).mpr (.inl (hrest k hk))
        rw [freeBanks_select hfree] at hmap hbit
        simp only [assignFree, hhdr, hsome, assign, map_cons, hmap, hacf, mem_cons, hbit,
          testBit_select, Option.some.injEq, true_and]
        refine ⟨rfl, fun k => ?_⟩
        rw [or_assoc, eq_comm (a := k)]

theorem mem_assign (hdrs : List (Option Nat)) (free : List Nat) (h : some j ∈ hdrs) :
    some j ∈ assign hdrs free := by
  induction hdrs generalizing free with
  | nil => exact h
  | cons hdr hdrs ih =>
    rcases mem_cons.mp h with rfl | hmem
    · exact .head _
    · cases hdr with
      | some k => exact .tail _ (ih free hmem)
      | none =>
        cases free with
        | nil => exact .tail _ (ih [] hmem)
        | cons f free => exact .tail _ (ih free hmem)

/-- With enough free banks each item gets one of its own. -/
theorem assign_spec (hdrs : List (Option Nat)) (free : List Nat)
    (hnodup : (hdrs.reduceOption ++ free).Nodup)
    (hfree : (hdrs.filter Option.isNone).length ≤ free.length) :
    ∃ taken : List Nat, assign hdrs free = taken.map some ∧ taken.Nodup ∧
      (∀ j ∈ taken, j ∈ hdrs.reduceOption ++ free) ∧ ∀ j ∈ hdrs.reduceOption, j ∈ taken := by
  induction hdrs generalizing free with
  | nil => exact ⟨[], rfl, nodup_nil, by simp, by simp⟩
  | cons hdr hdrs ih =>
    cases hdr with
    | some h =>
      obtain ⟨hh, hnodup⟩ := nodup_cons.mp hnodup
      obtain ⟨taken, hassign, htaken, hsub, hall⟩ := ih free hnodup hfree
      refine ⟨h :: taken, ?_, nodup_cons.mpr ⟨fun hno => hh (hsub h hno), htaken⟩, ?_, ?_⟩
      · rw [assign, hassign, map_cons]
      · intro j hj
        rcases mem_cons.mp hj with rfl | hj
        · exact .head _
        · exact .tail _ (hsub j hj)
      · intro j hj
        rcases mem_cons.mp hj with rfl | hj
        · exact .head _
        · exact .tail _ (hall j hj)
    | none =>
      cases free with
      | nil => exact absurd hfree (Nat.not_succ_le_zero _)
      | cons f free =>
        obtain ⟨hf, hnodup⟩ := nodup_cons.mp (perm_middle.nodup_iff.mp hnodup)
        obtain ⟨taken, hassign, htaken, hsub, hall⟩ := ih free hnodup (Nat.le_of_succ_le_succ hfree)
        refine ⟨f :: taken, ?_, nodup_cons.mpr ⟨fun hno => hf (hsub f hno), htaken⟩, ?_, ?_⟩
        · rw [assign, hassign, map_cons]
        · intro j hj
          rw [perm_middle.mem_iff]
          rcases mem_cons.mp hj with rfl | hj
          · exact .head _
          · exact .tail _ (hsub j hj)
        · exact fun j hj => .tail _ (hall j hj)

/-- The items of a configuration that fits leave banks for those without one. -/
theorem banks_spec (hvalid : Valid items) (hcount : items.length ≤ filterCount) :
    ∃ taken : List Nat, banks items = taken.map some ∧ taken.Nodup ∧
      ∀ j ∈ taken, j < filterCount := by
  have hmem : ∀ j, j ∈ (items.map Item.hdr).reduceOption ↔ some j ∈ items.map Item.hdr := fun j =>
    reduceOption_mem_iff
  have hfree : ∀ j, j ∈ (List.range filterCount).filter
      (fun j => !(items.map Item.hdr).contains (some j)) ↔
        j < filterCount ∧ some j ∉ items.map Item.hdr := by
    intro j
    rw [mem_filter, mem_range, Bool.not_eq_true', ← Bool.not_eq_true,
      contains_iff_mem]
  have hnodup : ((items.map Item.hdr).reduceOption ++
      (List.range filterCount).filter fun j => !(items.map Item.hdr).contains (some j)).Nodup := by
    refine hvalid.nodup.append (nodup_range.filter _) ?_
    intro j hj hno
    exact ((hfree j).mp hno).2 ((hmem j).mp hj)
  have hperm : ((items.map Item.hdr).reduceOption ++
      (List.range filterCount).filter fun j => !(items.map Item.hdr).contains (some j)).Perm
        (List.range filterCount) := by
    rw [perm_ext_iff_of_nodup hnodup nodup_range]
    intro j
    rw [mem_append, hmem, hfree, mem_range]
    constructor
    · rintro (hj | hj)
      · exact hvalid.lt j hj
      · exact hj.1
    · intro hj
      by_cases hreq : some j ∈ items.map Item.hdr
      · exact .inl hreq
      · exact .inr ⟨hj, hreq⟩
  have hlength : ((items.map Item.hdr).filter Option.isNone).length ≤
      ((List.range filterCount).filter fun j => !(items.map Item.hdr).contains (some j)).length := by
    have htotal := hperm.length_eq
    have hparts := length_eq_reduceOption_length_add_filter_none (l := items.map Item.hdr)
    rw [length_append, length_range] at htotal
    rw [length_map] at hparts
    omega
  obtain ⟨taken, hassign, htaken, hsub, -⟩ := assign_spec _ _ hnodup hlength
  exact ⟨taken, hassign, htaken, fun j hj => mem_range.mp (hperm.mem_iff.mp (hsub j hj))⟩

/-- Each selected bank gets the filter whose index is the number of selected banks below it. -/
theorem canFilterConfig_eq (pstcFilter : Nat → Filter) (sel addr i : Nat)
    (acf : Nat → UInt32 × UInt32) (j : Nat) :
    canFilterConfig pstcFilter sel addr i acf j =
      if addr ≤ j ∧ sel.testBit (j - addr) = true then
        (pstcFilter (i + Nat.count (fun k => sel.testBit k = true) (j - addr))).acf
      else acf j := by
  induction sel using Nat.strong_induction_on generalizing addr i acf with
  | h sel ih =>
    rw [canFilterConfig]
    split
    · next hzero =>
      subst hzero
      simp
    · next hpos =>
      have hhalf := ih (sel / 2) (Nat.div_lt_self (Nat.pos_of_ne_zero hpos) Nat.one_lt_two)
      rcases Nat.lt_trichotomy addr j with hlt | rfl | hgt
      · have hsub : j - addr = (j - (addr + 1)) + 1 := by omega
        have hbit : sel.testBit (j - addr) = (sel / 2).testBit (j - (addr + 1)) := by
          rw [hsub, Nat.testBit_succ]
        have hcount : Nat.count (fun k => sel.testBit k = true) (j - addr) =
            Nat.count (fun k => (sel / 2).testBit k = true) (j - (addr + 1)) +
              if sel % 2 = 1 then 1 else 0 := by
          rw [hsub, Nat.count_succ']
          simp [Nat.testBit_succ]
        rw [hbit, hcount]
        split
        · next hodd =>
          rw [hhalf, update_of_ne (by omega)]
          simp [Nat.le_of_lt hlt, Nat.succ_le_of_lt hlt, Nat.add_assoc, Nat.add_comm 1]
        · next heven =>
          rw [hhalf]
          simp [Nat.le_of_lt hlt, Nat.succ_le_of_lt hlt]
      · simp only [Nat.sub_self, Nat.testBit_zero, decide_eq_true_eq, Nat.count_zero, Nat.add_zero]
        split
        · next hodd =>
          rw [hhalf, if_neg (by omega), update_self, if_pos ⟨le_rfl, hodd⟩]
        · next heven => rw [hhalf, if_neg (by omega), if_neg fun hno => heven hno.2]
      · have hno : ¬ (addr ≤ j ∧ sel.testBit (j - addr) = true) := fun hno =>
          absurd hno.1 (Nat.not_le_of_lt hgt)
        split
        · rw [hhalf, if_neg (by omega), update_of_ne (by omega)]
        · rw [hhalf, if_neg (by omega)]

/-- The items and the selection that `_get_filter_idx` comes to. -/
theorem getFilterIdx_spec (items : List Item) : (getFilterIdx items).1.map Item.hdr = banks items ∧
      (getFilterIdx items).1.map Item.acf = items.map Item.acf ∧
      ∀ k, (getFilterIdx items).2.testBit k = true ↔ some k ∈ banks items := by
  have hsel : ∀ k, some k ∈ items.map Item.hdr → (selectRequested items).testBit k = true :=
    fun k => (testBit_selectRequested items k).mpr
  have hfree : freeBanks (selectRequested items) =
      (List.range filterCount).filter fun j => !(items.map Item.hdr).contains (some j) := by
    apply filter_congr
    intro j _
    apply congrArg
    rw [Bool.eq_iff_iff, testBit_selectRequested, contains_iff_mem]
  obtain ⟨hmap, hacf, hbit⟩ := assignFree_spec items (selectRequested items) hsel
  rw [hfree] at hmap hbit
  refine ⟨hmap, hacf, fun k => (hbit k).trans (or_iff_right_of_imp fun hk => ?_)⟩
  exact mem_assign _ _ ((testBit_selectRequested items k).mp hk)

/-- A bank gets what the item with its number among the taken banks has. -/
theorem setFilter_spec (can : Can) (hcount : items.length ≠ 0) (hfit : items.length ≤ filterCount)
    (hvalid : Valid items) : ∃ can', setFilter can items = some ((getFilterIdx items).1, can', 0) ∧
      can'.acfen = (getFilterIdx items).2 ∧
      (∀ j, some j ∉ banks items → can'.acf j = can.acf j) ∧
      ∀ j, some j ∈ banks items →
        items[Nat.count (fun k => (banks items).contains (some k)) j]?.map Item.acf = some (can'.acf j) := by
  obtain ⟨hmap, hacf, hbit⟩ := getFilterIdx_spec items
  obtain ⟨taken, htaken, hnodup, hlt⟩ := banks_spec hvalid hfit
  have hlength : (getFilterIdx items).1.length = items.length := by
    have hlengths := congrArg List.length hacf
    rwa [length_map, length_map] at hlengths
  have hmem : ∀ j, some j ∈ banks items ↔ j ∈ taken := by
    intro j
    rw [htaken]
    simp
  unfold setFilter
  rw [if_neg hcount, if_pos hfit]
  refine ⟨_, rfl, rfl, fun j hj => ?_, fun j hj => ?_⟩
  · show canFilterConfig _ (getFilterIdx items).2 0 0 can.acf j = can.acf j
    rw [canFilterConfig_eq, if_neg]
    rintro ⟨-, hset⟩
    exact hj ((hbit j).mp hset)
  · -- fewer banks are taken below a taken one than in all
    have hrank : Nat.count (fun k => (banks items).contains (some k)) j < items.length := by
      have htotal : taken.length = items.length := by
        have hlengths := congrArg List.length htaken
        rw [← hmap, length_map, length_map, hlength] at hlengths
        exact hlengths.symm
      rw [Nat.count_eq_card_filter_range, ← htotal, ← toFinset_card_of_nodup hnodup]
      apply Finset.card_lt_card
      rw [Finset.ssubset_iff_of_subset]
      · exact ⟨j, mem_toFinset.mpr ((hmem j).mp hj), by simp⟩
      · intro k hk
        have hbank := contains_iff_mem.mp (Finset.mem_filter.mp hk).2
        exact mem_toFinset.mpr ((hmem k).mp hbank)
    have hcounts : Nat.count (fun k => (getFilterIdx items).2.testBit k = true) j =
        Nat.count (fun k => (banks items).contains (some k)) j := by
      simp only [hbit, contains_iff_mem]
    rw [← hlength] at hrank
    have hbank : canFilterConfig (fun i => if h : i < (getFilterIdx items).1.length then
        (getFilterIdx items).1[i].filter else can.pstcFilter i) (getFilterIdx items).2 0 0
          can.acf j =
          (getFilterIdx items).1[Nat.count (fun k => (banks items).contains (some k)) j].acf := by
      rw [canFilterConfig_eq, if_pos ⟨Nat.zero_le j, (hbit j).mpr hj⟩, Nat.zero_add, Nat.sub_zero,
        hcounts, dif_pos hrank]
      rfl
    have hitem := congrArg (·[Nat.count (fun k => (banks items).contains (some k)) j]?) hacf
    simp only [List.getElem?_map] at hitem
    rw [List.getElem?_eq_getElem hrank] at hitem
    rw [← hitem]
    exact congrArg some hbank.symm

/-- A request programs each item into its own bank just when the items come in the order of their
banks, up to items with the same data. -/
theorem setFilter_programmed_iff (can : Can) (hcount : items.length ≠ 0)
    (hfit : items.length ≤ filterCount) (hvalid : Valid items) :
    ∃ items' can', setFilter can items = some (items', can', 0) ∧
      (Programmed can items' can' ↔ InOrder items) := by
  obtain ⟨hmap, hacf, hbit⟩ := getFilterIdx_spec items
  obtain ⟨taken, htaken, hnodup, hlt⟩ := banks_spec hvalid hfit
  obtain ⟨can', hset, hen, hothers, hbanks⟩ := setFilter_spec can hcount hfit hvalid
  refine ⟨_, can', hset, ?_⟩
  have hmem : ∀ item ∈ (getFilterIdx items).1, item.hdr ∈ banks items := fun item hitem =>
    hmap ▸ List.mem_map_of_mem hitem
  have hplace : ∀ i : Nat, (banks items)[i]? = (getFilterIdx items).1[i]?.map Item.hdr ∧
      items[i]?.map Item.acf = (getFilterIdx items).1[i]?.map Item.acf := by
    intro i
    have hdata := congrArg (·[i]?) hacf
    simp only [List.getElem?_map] at hdata
    rw [← hmap, List.getElem?_map]
    exact ⟨rfl, hdata.symm⟩
  constructor
  · intro hprogrammed i j hij
    obtain ⟨hhdr, hdata⟩ := hplace i
    obtain ⟨item, hitem, hj⟩ := Option.map_eq_some_iff.mp (hhdr.symm.trans hij)
    have hin := List.mem_of_getElem? hitem
    rw [hbanks j (hj ▸ hmem item hin), hdata, hitem, Option.map_some,
      hprogrammed.written item hin j hj]
  · intro horder
    refine ⟨fun item hin => ?_, ?_, fun j => ?_, fun j hj => ?_, fun item hin j hj => ?_⟩
    · have hbank := hmem item hin
      rw [htaken, List.mem_map] at hbank
      obtain ⟨j, hj, hhdr⟩ := hbank
      exact ⟨j, hlt j hj, hhdr.symm⟩
    · rw [hmap, htaken]
      exact hnodup.map (Option.some_injective _)
    · rw [hen, hmap]
      exact hbit j
    · rw [hen, Bool.eq_false_iff, ne_eq, hbit] at hj
      exact hothers j hj
    · obtain ⟨i, hi⟩ := List.mem_iff_getElem?.mp hin
      obtain ⟨hhdr, hdata⟩ := hplace i
      rw [hi, Option.map_some] at hhdr hdata
      have hsame := horder i j (hhdr.trans (congrArg some hj))
      rw [hbanks j (hj ▸ hmem item hin), hdata] at hsame
      exact Option.some.inj hsame

/-- A device that has just been initialized. -/
def fresh : Can :=
  { pstcFilter := fun _ => { u32ID := 0, u32IDMask := 0, u32IDType := 0 }
    u16FilterSelect := 1
    acf := fun _ => (0, 0)
    acfen := 1 }

def item (id : UInt32) (hdr : Option Nat) : Item :=
  { id := id, ide := false, mask := 0x7FF, hdr := hdr }

/-- The first item asks for bank 2, and the other one is given bank 0. -/
def swapped : List Item := [item 0x10 (some 2), item 0x20 none]

/-- Two items without banks and one with bank 2. -/
theorem setFilter_programmed_three : ∃ items' can',
    setFilter fresh [item 0x10 none, item 0x20 none, item 0x30 (some 2)] = some (items', can', 0) ∧
      Programmed fresh items' can' := by
  have hvalid : Valid [item 0x10 none, item 0x20 none, item 0x30 (some 2)] := by
    refine ⟨by decide, fun j hj => ?_⟩
    simp [item] at hj
    subst hj
    decide
  have hbanks : banks [item 0x10 none, item 0x20 none, item 0x30 (some 2)] =
      [some 0, some 1, some 2] := by decide
  obtain ⟨items', can', hset, hiff⟩ :=
    setFilter_programmed_iff fresh (by decide) (by decide) hvalid
  refine ⟨items', can', hset, hiff.mpr fun i j hij => ?_⟩
  rw [hbanks] at hij ⊢
  rcases i with _ | _ | _ | i
  · cases hij
    decide
  · cases hij
    decide
  · cases hij
    decide
  · cases hij

/-- Bank 0 gets the first item, and bank 2 the other one. -/
theorem swapped_not_programmed :
    ¬ ∀ can items, items.length ≠ 0 → items.length ≤ filterCount → Valid items →
      ∃ items' can', setFilter can items = some (items', can', 0) ∧
        Programmed can items' can' := by
  intro hall
  have hvalid : Valid swapped := by
    refine ⟨by decide, fun j hj => ?_⟩
    simp [swapped, item] at hj
    subst hj
    decide
  obtain ⟨items', can', hset, hprogrammed⟩ := hall fresh swapped (by decide) (by decide) hvalid
  obtain ⟨can'', hspec, -, -, hbanks⟩ :=
    setFilter_spec fresh (show swapped.length ≠ 0 by decide) (by decide) hvalid
  rw [hspec] at hset
  cases hset
  have hfirst : some (item 0x10 none).acf = some (can'.acf 0) := hbanks 0 (by decide)
  have hin : item 0x20 (some 0) ∈ (getFilterIdx swapped).1 := by decide
  have hwritten := hprogrammed.written _ hin 0 rfl
  rw [← Option.some.inj hfirst] at hwritten
  exact absurd hwritten (by decide)

end RtKernel.CanFilter
