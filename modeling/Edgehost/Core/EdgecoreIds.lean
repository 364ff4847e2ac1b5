import Edgehost.Core.EdgecoreBuffers
import Mathlib.Data.Nat.ModEq

/-!
# Buffer ids across wrap-around

Ids come from a 32-bit counter that skips 0, so the id of the `k`-th request that mints one is
`idOf k`, and two requests get one id exactly when they are a multiple of `2 ^ 32 - 1` apart.
`MintHistory` follows a core together with the number of ids minted so far and, for each slot in use,
the number that its request had.

* `MintHistory.always_idsNameSlots_iff`: the ids of the slots in use name their slots exactly along
  the runs in which no new id is minted while a slot is in use whose request was such a multiple ago.
* `MintHistory.named_of_few`: runs with fewer than `2 ^ 32 - 1` requests are such runs.
-/

namespace Edgehost

/-- The number of different ids. -/
def ID_PERIOD : ℕ := 2 ^ 32 - 1

/-- The id of the `k`-th request that mints one, counted from 0. -/
def idOf (k : ℕ) : UInt32 := UInt32.ofNat (k % ID_PERIOD + 1)

theorem toNat_idOf (k : ℕ) : (idOf k).toNat = k % ID_PERIOD + 1 := by
  have hlt : k % ID_PERIOD < ID_PERIOD := Nat.mod_lt _ (by decide)
  have hperiod : ID_PERIOD = 2 ^ 32 - 1 := rfl
  rw [idOf, UInt32.toNat_ofNat', Nat.mod_eq_of_lt (by omega)]

theorem idOf_ne_zero (k : ℕ) : idOf k ≠ 0 := by
  intro h
  have hzero := congrArg UInt32.toNat h
  rw [toNat_idOf] at hzero
  exact absurd hzero (Nat.succ_ne_zero _)

theorem idOf_eq_iff {j k : ℕ} : idOf j = idOf k ↔ j ≡ k [MOD ID_PERIOD] := by
  rw [← UInt32.toNat_inj, toNat_idOf, toNat_idOf, Nat.ModEq, Nat.add_right_cancel_iff]

/-- The counter after one more id. -/
theorem mintAllocId_idOf {core : Edgecore} {k : ℕ} (h : core.nextAllocId = idOf k) :
    (mintAllocId core).2 = idOf k ∧ (mintAllocId core).1.nextAllocId = idOf (k + 1) := by
  have hperiod : ID_PERIOD = 2 ^ 32 - 1 := rfl
  have hnat := toNat_idOf k
  have hnext := toNat_idOf (k + 1)
  have hsucc : (idOf k + 1).toNat = (k % ID_PERIOD + 2) % 2 ^ 32 := by
    rw [UInt32.toNat_add, hnat]
    rfl
  simp only [mintAllocId, h, if_neg (idOf_ne_zero k), true_and]
  have hlt : k % ID_PERIOD < ID_PERIOD := Nat.mod_lt _ (by decide)
  have hmod := Nat.mod_add_mod k ID_PERIOD 1
  by_cases hwrap : k % ID_PERIOD + 1 = ID_PERIOD
  · have hzero : idOf k + 1 = 0 := by
      rw [← UInt32.toNat_inj, hsucc]
      have : k % ID_PERIOD + 2 = 2 ^ 32 := by omega
      rw [this]
      rfl
    rw [if_pos hzero, ← UInt32.toNat_inj, hnext]
    have : (k + 1) % ID_PERIOD = 0 := by rw [← hmod, hwrap, Nat.mod_self]
    rw [this]
    rfl
  · have hval : (idOf k + 1).toNat = k % ID_PERIOD + 2 := by
      rw [hsucc, Nat.mod_eq_of_lt (by omega)]
    have hnz : idOf k + 1 ≠ 0 := by
      intro hz
      have := congrArg UInt32.toNat hz
      rw [hval] at this
      exact absurd this (Nat.succ_ne_zero _)
    have hstep : (k + 1) % ID_PERIOD = k % ID_PERIOD + 1 :=
      hmod.symm.trans (Nat.mod_eq_of_lt (by omega))
    rw [if_neg hnz, ← UInt32.toNat_inj, hval, hnext, hstep]

/-! ## Ids and slots -/

/-- The slots in use have non-zero, distinct ids, so that an id names its slot. -/
structure IdsNameSlots (core : Edgecore) : Prop where
  nonzero : ∀ slot ∈ core.bufs, slot.state ≠ .free → slot.allocId ≠ 0
  distinct : bufsById.Distinct core.bufs
  found : ∀ i slot, core.bufs[i]? = some slot → slot.state ≠ .free →
    findSlotById core slot.allocId = some i

theorem idsNameSlots_of_distinct {core : Edgecore}
    (hnonzero : ∀ slot ∈ core.bufs, slot.state ≠ .free → slot.allocId ≠ 0)
    (hdistinct : bufsById.Distinct core.bufs) : IdsNameSlots core where
  nonzero := hnonzero
  distinct := hdistinct
  found i slot hslot hused := by
    rw [findSlotById, if_neg (hnonzero slot (List.mem_of_getElem? hslot) hused)]
    exact hdistinct.find_eq_some_iff.mpr ⟨slot, hslot, by simpa [bufsById] using hused, rfl⟩

/-- Writing a slot keeps the ids distinct when the new record is free or keeps the id of one in use. -/
theorem IdsNameSlots.set {core core' : Edgecore} (h : IdsNameSlots core) {i : ℕ}
    {old slot : EdgeBufSlot} (hold : core.bufs[i]? = some old)
    (hbufs : core'.bufs = core.bufs.set i slot)
    (hkeep : slot.state ≠ .free → old.state ≠ .free ∧ slot.allocId = old.allocId) :
    IdsNameSlots core' := by
  refine idsNameSlots_of_distinct (fun x hx hused => ?_) ?_
  · rw [hbufs] at hx
    rcases List.mem_or_eq_of_mem_set hx with hx | rfl
    · exact h.nonzero x hx hused
    · rw [(hkeep hused).2]
      exact h.nonzero old (List.mem_of_getElem? hold) (hkeep hused).1
  · rw [hbufs]
    refine h.distinct.set i slot fun hlive j y hj hy hlive' heq => ?_
    have hused : slot.state ≠ .free := by simpa [bufsById] using hlive
    obtain ⟨hold', hid⟩ := hkeep hused
    refine hj (h.distinct j i y old hy hold hlive' (by simpa [bufsById] using hold') ?_)
    exact heq.trans hid

/-- A slot in use after a write is the new record, or was in use before. -/
theorem getElem?_set_cases {core core' : Edgecore} {i : ℕ} {slot : EdgeBufSlot}
    (hbufs : core'.bufs = core.bufs.set i slot) {j : ℕ} {x : EdgeBufSlot}
    (hx : core'.bufs[j]? = some x) : (j = i ∧ x = slot) ∨ (j ≠ i ∧ core.bufs[j]? = some x) := by
  rw [hbufs, List.getElem?_set] at hx
  split at hx
  · rename_i hij
    split at hx
    · exact .inl ⟨hij.symm, (Option.some.inj hx).symm⟩
    · cases hx
  · rename_i hij
    exact .inr ⟨fun h => hij h.symm, hx⟩

/-! ## Runs -/

/-- A core, the number of ids minted so far, and for each slot the number of the id it carries. -/
structure MintHistory where
  core : Edgecore
  minted : ℕ
  born : ℕ → ℕ

namespace MintHistory

/-- The slot is in use. -/
def inUse (core : Edgecore) (i : ℕ) : Bool := core.bufs[i]?.any fun slot => slot.state ≠ .free

/-- Run one operation. A slot that comes into use carries the id minted by it. -/
def step (h : MintHistory) (op : CoreOp) : MintHistory where
  core := coreStep h.core op
  minted := if op.Mints h.core then h.minted + 1 else h.minted
  born i := if !inUse h.core i && inUse (coreStep h.core op) i then h.minted else h.born i

/-- The history of a new core. -/
def create (eventQueueSize : ℕ) : MintHistory where
  core := edgecoreCreateWithConfig eventQueueSize
  minted := 0
  born := fun _ => 0

/-- The slots in use of the core have ids that name them. -/
def Named (h : MintHistory) : Prop := IdsNameSlots h.core

/-- The operation mints no id for a buffer while a slot is in use whose own request was a multiple of
`2 ^ 32 - 1` requests ago. -/
def Spaced (h : MintHistory) (op : CoreOp) : Prop :=
  op.Mints h.core → h.core.events.cnt < h.core.events.cap →
    ∀ i slot, h.core.bufs[i]? = some slot → slot.state ≠ .free →
      ¬ h.born i ≡ h.minted [MOD ID_PERIOD]

/-- The counter and the ids are those of the history. -/
structure Inv (h : MintHistory) : Prop where
  ring : h.core.events.WF
  next : h.core.nextAllocId = idOf h.minted
  ids : ∀ i slot, h.core.bufs[i]? = some slot → slot.state ≠ .free →
    slot.allocId = idOf (h.born i) ∧ h.born i < h.minted

theorem inUse_iff {core : Edgecore} {i : ℕ} :
    inUse core i ↔ ∃ slot, core.bufs[i]? = some slot ∧ slot.state ≠ .free := by
  rcases h : core.bufs[i]? with _ | slot <;> simp [inUse, h]

theorem inv_create (eventQueueSize : ℕ) : (create eventQueueSize).Inv where
  ring := CoreHistory.create_ringOk eventQueueSize
  next := rfl
  ids i slot hslot hused := by
    obtain rfl := List.eq_of_mem_replicate (List.mem_of_getElem? hslot)
    exact absurd rfl hused

theorem named_create (eventQueueSize : ℕ) : (create eventQueueSize).Named := by
  have hfree : ∀ slot ∈ (create eventQueueSize).core.bufs, slot.state = .free := fun slot hslot => by
    rw [List.eq_of_mem_replicate hslot]
  refine idsNameSlots_of_distinct (fun slot hslot hused => absurd (hfree slot hslot) hused) ?_
  intro i j x y hx _ hlive
  have := hfree x (List.mem_of_getElem? hx)
  simp [bufsById, this] at hlive

variable {h : MintHistory}

/-- A slot that stays in use keeps its number. -/
theorem born_step_of_inUse {op : CoreOp} {i : ℕ} (hi : inUse h.core i) :
    (h.step op).born i = h.born i := by
  simp [step, hi]

/-- A slot that comes into use takes the number that is minted. -/
theorem born_step_of_fresh {op : CoreOp} {i : ℕ} (hi : inUse h.core i = false)
    (hi' : inUse (coreStep h.core op) i) : (h.step op).born i = h.minted := by
  simp [step, hi, hi']

/-- A write that keeps the ids of the slots in use keeps their numbers. -/
private theorem ids_set {op : CoreOp} (hinv : h.Inv) {i : ℕ} {old slot : EdgeBufSlot}
    (hold : h.core.bufs[i]? = some old)
    (hbufs : (coreStep h.core op).bufs = h.core.bufs.set i slot)
    (hkeep : slot.state ≠ .free → old.state ≠ .free ∧ slot.allocId = old.allocId) {j : ℕ}
    {x : EdgeBufSlot} (hx : (coreStep h.core op).bufs[j]? = some x) (hused : x.state ≠ .free) :
    x.allocId = idOf ((h.step op).born j) ∧ (h.step op).born j < h.minted := by
  have hbefore : ∃ y, h.core.bufs[j]? = some y ∧ y.state ≠ .free ∧ x.allocId = y.allocId := by
    rcases getElem?_set_cases hbufs hx with ⟨rfl, rfl⟩ | ⟨-, hx⟩
    · exact ⟨old, hold, (hkeep hused).1, (hkeep hused).2⟩
    · exact ⟨x, hx, hused, rfl⟩
  obtain ⟨y, hy, hyused, hid⟩ := hbefore
  rw [born_step_of_inUse (inUse_iff.mpr ⟨y, hy, hyused⟩), hid]
  exact hinv.ids j y hy hyused

/-- Every operation keeps the counter and the ids those of the history. -/
theorem Inv.step (hinv : h.Inv) (op : CoreOp) : (h.step op).Inv := by
  have hring : (coreStep h.core op).events.WF := (op.apply_effect h.core).ringOk hinv.ring
  have hmint := mintAllocId_idOf hinv.next
  have heff := op.apply_bufEffect hinv.ring
  generalize op.act h.core = act at heff
  have hkept : ¬ op.Mints h.core → (coreStep h.core op).nextAllocId = h.core.nextAllocId →
      (∀ i slot, (coreStep h.core op).bufs[i]? = some slot → slot.state ≠ .free →
        slot.allocId = idOf ((h.step op).born i) ∧ (h.step op).born i < h.minted) →
      (h.step op).Inv := by
    intro hno hnext hids
    have hminted : (h.step op).minted = h.minted := if_neg hno
    exact ⟨hring, by rw [hminted]; exact hnext.trans hinv.next, by rw [hminted]; exact hids⟩
  have hset : ¬ op.Mints h.core → (coreStep h.core op).nextAllocId = h.core.nextAllocId →
      ∀ {i : ℕ} {old slot : EdgeBufSlot}, h.core.bufs[i]? = some old →
        (coreStep h.core op).bufs = h.core.bufs.set i slot →
        (slot.state ≠ .free → old.state ≠ .free ∧ slot.allocId = old.allocId) → (h.step op).Inv :=
    fun hno hnext _ _ _ hold hbufs hkeep =>
      hkept hno hnext fun _ _ hx hused => ids_set hinv hold hbufs hkeep hx hused
  cases heff with
  | same hno hbufs hnext hev =>
    refine hkept hno hnext fun i slot hslot hused => ?_
    have hslot : h.core.bufs[i]? = some slot := by
      rw [← hslot, coreStep, hbufs]
    rw [born_step_of_inUse (inUse_iff.mpr ⟨slot, hslot, hused⟩)]
    exact hinv.ids i slot hslot hused
  -- The only step that mints: the new id is that of a slot that was free.
  | asked hop hroom i old kind size hold hfree hbufs hnext hev =>
    have hminted : (h.step op).minted = h.minted + 1 := if_pos hop
    refine ⟨hring, by rw [hminted]; exact hnext.trans hmint.2, fun j x hx hused => ?_⟩
    rw [hminted]
    rcases getElem?_set_cases hbufs hx with ⟨rfl, rfl⟩ | ⟨-, hbefore⟩
    · have hbefore : inUse h.core j = false := by simp [inUse, hold, hfree]
      rw [born_step_of_fresh hbefore (inUse_iff.mpr ⟨_, hx, hused⟩)]
      exact ⟨hmint.1, Nat.lt_succ_self _⟩
    · rw [born_step_of_inUse (inUse_iff.mpr ⟨x, hbefore, hused⟩)]
      exact ⟨(hinv.ids j x hbefore hused).1, Nat.lt_succ_of_lt (hinv.ids j x hbefore hused).2⟩
  | dropped hop hfull i old hold hfree hbufs hnext hev =>
    have hminted : (h.step op).minted = h.minted + 1 := if_pos hop
    refine ⟨hring, by rw [hminted]; exact hnext.trans hmint.2, fun j x hx hused => ?_⟩
    obtain ⟨hid, hlt⟩ := ids_set hinv hold hbufs (fun hfalse => absurd rfl hfalse) hx hused
    rw [hminted]
    exact ⟨hid, Nat.lt_succ_of_lt hlt⟩
  | grown hno i slot size hfind hslot hready hbufs hnext hev =>
    exact hset hno hnext hslot hbufs fun _ => ⟨by simp [hready], rfl⟩
  | kept hno i slot hslot hready hbufs hnext hev =>
    exact hset hno hnext hslot hbufs fun _ => ⟨by simp [hready], rfl⟩
  | provided hno i slot ptr size hfind hslot hpending hptr hsize hbufs hnext hev =>
    exact hset hno hnext hslot hbufs fun _ => ⟨by simp [hpending], rfl⟩
  | detached hno i slot hfind hslot hbufs hnext hev =>
    exact hset hno hnext hslot hbufs fun hfalse => absurd rfl hfalse

/-- A new id is fresh exactly when the requests of the slots in use are spaced from it. -/
private theorem named_asked_iff {core' : Edgecore} (hinv : h.Inv) (hnamed : h.Named) {i : ℕ}
    {old : EdgeBufSlot} {kind : EdgeBufKind} {size : ℕ} (hold : h.core.bufs[i]? = some old)
    (hfree : old.state = .free) (hbufs : core'.bufs = h.core.bufs.set i (askedSlot h.core kind size)) :
    IdsNameSlots core' ↔ ∀ j slot, h.core.bufs[j]? = some slot → slot.state ≠ .free →
      ¬ h.born j ≡ h.minted [MOD ID_PERIOD] := by
  have hmint := (mintAllocId_idOf hinv.next).1
  have hi : i < h.core.bufs.length := (List.getElem?_eq_some_iff.mp hold).1
  have hnew : core'.bufs[i]? = some (askedSlot h.core kind size) := by
    rw [hbufs, List.getElem?_set_self hi]
  have hne : ∀ j slot, h.core.bufs[j]? = some slot → slot.state ≠ .free → j ≠ i := by
    rintro j slot hslot hused rfl
    obtain rfl := Option.some.inj (hold.symm.trans hslot)
    exact hused hfree
  constructor
  · intro hids j slot hslot hused hmod
    have hj := hne j slot hslot hused
    refine hj (hids.distinct j i slot _ ?_ hnew (by simpa [bufsById] using hused) rfl ?_)
    · rw [hbufs, List.getElem?_set_ne hj.symm, hslot]
    · show slot.allocId = (mintAllocId h.core).2
      rw [hmint, (hinv.ids j slot hslot hused).1, idOf_eq_iff]
      exact hmod
  · intro hspaced
    refine idsNameSlots_of_distinct (fun x hx hused => ?_) ?_
    · rw [hbufs] at hx
      rcases List.mem_or_eq_of_mem_set hx with hx | rfl
      · exact hnamed.nonzero x hx hused
      · exact mintAllocId_ne_zero h.core
    · rw [hbufs]
      refine hnamed.distinct.set i _ fun _ j slot hj hslot hlive heq => ?_
      have hused : slot.state ≠ .free := by simpa [bufsById] using hlive
      refine hspaced j slot hslot hused (idOf_eq_iff.mp ?_)
      rw [← (hinv.ids j slot hslot hused).1, ← hmint]
      exact heq

/-- **One step keeps the ids of the slots in use distinct exactly when it is spaced.** -/
theorem named_step_iff (hinv : h.Inv) (hnamed : h.Named) (op : CoreOp) :
    (h.step op).Named ↔ h.Spaced op := by
  have heff := op.apply_bufEffect hinv.ring
  generalize op.act h.core = act at heff
  have hset : ∀ {i : ℕ} {old slot : EdgeBufSlot}, h.core.bufs[i]? = some old →
      (coreStep h.core op).bufs = h.core.bufs.set i slot →
      (slot.state ≠ .free → old.state ≠ .free ∧ slot.allocId = old.allocId) → (h.step op).Named :=
    fun hold hbufs hkeep => IdsNameSlots.set hnamed hold hbufs hkeep
  cases heff with
  | same hno hbufs hnext hev =>
    refine iff_of_true ?_ fun hop => absurd hop hno
    refine idsNameSlots_of_distinct ?_ ?_
    · intro slot hslot
      exact hnamed.nonzero slot (hbufs ▸ hslot)
    · show bufsById.Distinct (op.apply h.core).1.bufs
      rw [hbufs]
      exact hnamed.distinct
  | asked hop hroom i old kind size hold hfree hbufs hnext hev =>
    exact (named_asked_iff hinv hnamed hold hfree hbufs).trans
      ⟨fun hspaced _ _ => hspaced, fun hspaced => hspaced hop hroom⟩
  | dropped hop hfull i old hold hfree hbufs hnext hev =>
    exact iff_of_true (hset hold hbufs fun hfalse => absurd rfl hfalse)
      fun _ hroom => absurd hroom (Nat.not_lt.mpr hfull)
  | grown hno i slot size hfind hslot hready hbufs hnext hev =>
    exact iff_of_true (hset hslot hbufs fun _ => ⟨by simp [hready], rfl⟩) fun hop => absurd hop hno
  | kept hno i slot hslot hready hbufs hnext hev =>
    exact iff_of_true (hset hslot hbufs fun _ => ⟨by simp [hready], rfl⟩) fun hop => absurd hop hno
  | provided hno i slot ptr size hfind hslot hpending hptr hsize hbufs hnext hev =>
    exact iff_of_true (hset hslot hbufs fun _ => ⟨by simp [hpending], rfl⟩) fun hop => absurd hop hno
  | detached hno i slot hfind hslot hbufs hnext hev =>
    exact iff_of_true (hset hslot hbufs fun hfalse => absurd rfl hfalse) fun hop => absurd hop hno

/-- **The ids of the slots in use name their slots exactly along the spaced runs.** -/
theorem always_idsNameSlots_iff (eventQueueSize : ℕ) (ops : List CoreOp) :
    Always step Named (create eventQueueSize) ops ↔ EachStep step Spaced (create eventQueueSize) ops :=
  always_iff_eachStep (fun (h : MintHistory) op (hinv : h.Inv) => hinv.step op)
    (fun _ op hinv hnamed => named_step_iff hinv hnamed op) (inv_create eventQueueSize)
    (named_create eventQueueSize) ops

/-! ## Few requests -/

/-- The operation is a request for a new buffer. -/
def isRequest : CoreOp → Bool
  | .requestAlloc .. => true
  | _ => false

theorem minted_step_le (h : MintHistory) (op : CoreOp) :
    (h.step op).minted ≤ h.minted + if isRequest op then 1 else 0 := by
  show (if op.Mints h.core then h.minted + 1 else h.minted) ≤ _
  cases op with
  | requestAlloc kind size =>
    simp only [isRequest, if_true]
    split <;> omega
  | requestRealloc allocId newSize => exact (if_neg id).le
  | provideBuffer allocId ptr size => exact (if_neg id).le
  | detachBuffer allocId => exact (if_neg id).le
  | applyConfig cfg => exact (if_neg id).le
  | notifyConfigRejected reason => exact (if_neg id).le
  | nextEvent => exact (if_neg id).le

/-- A run that makes fewer than `2 ^ 32 - 1` requests never comes to an id a second time. -/
theorem named_of_few {ops : List CoreOp} (hinv : h.Inv) (hnamed : h.Named)
    (hfew : h.minted + ops.countP isRequest < ID_PERIOD) : Always step Named h ops := by
  induction ops generalizing h with
  | nil => exact hnamed
  | cons op ops ih =>
    rw [List.countP_cons] at hfew
    have hle := minted_step_le h op
    refine ⟨hnamed, ih (hinv.step op) ((named_step_iff hinv hnamed op).mpr ?_) (by omega)⟩
    intro _ _ i slot hslot hused hmod
    have hlt := (hinv.ids i slot hslot hused).2
    have heq := Nat.ModEq.eq_of_lt_of_lt hmod (by omega) (by omega)
    omega

/-! ## A run that wraps -/

/-- A core whose ring of one event is full and that has one buffer in use. -/
structure Stuck (core : Edgecore) (slot : EdgeBufSlot) : Prop where
  full : core.events.cap ≤ core.events.cnt
  bufs : core.bufs = slot :: List.replicate 31 {}

/-- A core with a free slot mints an id for a request. -/
theorem Stuck.mints {core : Edgecore} {slot : EdgeBufSlot}
    (hbufs : core.bufs = slot :: List.replicate 31 {}) :
    (CoreOp.requestAlloc .generic 1).Mints core := by
  refine ⟨by decide, by decide, fun hnone => ?_⟩
  have hlive := firstFree_eq_none.mp hnone {} (by rw [hbufs]; simp)
  exact absurd hlive (by decide)

/-- A request on a full ring spends an id and leaves the core as stuck as it was. -/
theorem Stuck.request {slot : EdgeBufSlot} (hinv : h.Inv) (hstuck : Stuck h.core slot)
    (hused : slot.state ≠ .free) :
    Stuck (h.step (.requestAlloc .generic 1)).core slot ∧
      (h.step (.requestAlloc .generic 1)).minted = h.minted + 1 := by
  have hmint := Stuck.mints hstuck.bufs
  refine ⟨⟨?_, ?_⟩, if_pos hmint⟩
  · have heff := (CoreOp.requestAlloc .generic 1).apply_effect h.core
    generalize ((CoreOp.requestAlloc .generic 1).apply h.core).2 = ev at heff
    show (coreStep h.core _).events.cap ≤ (coreStep h.core _).events.cnt
    rw [coreStep]
    cases heff with
    | quiet hno hev hslots => exact absurd hmint hno
    | pulled hno hne hev hslots => exact absurd hmint hno
    | reported hemits ev hroom hev hslots => exact absurd hroom (Nat.not_lt.mpr hstuck.full)
    | requested hemits ev i slot hroom hev hi hslots hasks =>
      exact absurd hroom (Nat.not_lt.mpr hstuck.full)
    | lost hemits hfull hev hslots =>
      rw [hev]
      simpa using hstuck.full
  · have heff := (CoreOp.requestAlloc .generic 1).apply_bufEffect hinv.ring
    generalize (CoreOp.requestAlloc .generic 1).act h.core = act at heff
    show (coreStep h.core _).bufs = _
    rw [coreStep]
    cases heff with
    | same hno hbufs hnext hev => exact absurd hmint hno
    | asked hop hroom i old kind size hold hfree hbufs hnext hev =>
      exact absurd hroom (Nat.not_lt.mpr hstuck.full)
    | dropped hop hfull i old hold hfree hbufs hnext hev =>
      rw [hbufs, hstuck.bufs]
      rw [hstuck.bufs] at hold
      rcases i with _ | i
      · obtain rfl := Option.some.inj hold
        exact absurd hfree hused
      · rw [List.set_cons_succ, List.set_replicate_self]
    | grown hno i slot size hfind hslot hready hbufs hnext hev => exact absurd hmint hno
    | kept hno i slot hslot hready hbufs hnext hev => exact absurd hmint hno
    | provided hno i slot ptr size hfind hslot hpending hptr hsize hbufs hnext hev =>
      exact absurd hmint hno
    | detached hno i slot hfind hslot hbufs hnext hev => exact absurd hmint hno

theorem Stuck.requests {slot : EdgeBufSlot} (hinv : h.Inv) (hstuck : Stuck h.core slot)
    (hused : slot.state ≠ .free) (n : ℕ) :
    let h' := runFrom step h (List.replicate n (.requestAlloc .generic 1))
    h'.Inv ∧ Stuck h'.core slot ∧ h'.minted = h.minted + n := by
  induction n generalizing h with
  | zero => exact ⟨hinv, hstuck, rfl⟩
  | succ n ih =>
    obtain ⟨hnext, hminted⟩ := hstuck.request hinv hused
    obtain ⟨hinv', hstuck', hminted'⟩ := ih (hinv.step _) hnext
    rw [List.replicate_succ, runFrom_cons]
    exact ⟨hinv', hstuck', by rw [hminted', hminted]; omega⟩

/-- One buffer stays in use while `n` more requests find the ring full; then the host pulls the event
that fills it, and one more buffer is asked for. -/
def heldRun (n : ℕ) : List CoreOp :=
  (.requestAlloc .generic 1 :: List.replicate n (.requestAlloc .generic 1)) ++
    [.nextEvent, .requestAlloc .generic 1]

/-- The buffer that stays in use. -/
def heldSlot : EdgeBufSlot where
  state := .pending
  kind := .generic
  allocId := 1
  requested := 1

/-- After as many requests as there are ids, the id of the buffer in use comes again. -/
theorem not_always_named_heldRun {n : ℕ} (hn : 0 ≡ 1 + n [MOD ID_PERIOD]) :
    ¬ Always step Named (create 1) (heldRun n) := by
  intro hall
  have hfirst : Stuck ((create 1).step (.requestAlloc .generic 1)).core heldSlot :=
    ⟨by decide +kernel, by decide +kernel⟩
  have hmints : (CoreOp.requestAlloc .generic 1).Mints (create 1).core := Stuck.mints rfl
  have hone : ((create 1).step (.requestAlloc .generic 1)).minted = 1 := by
    rw [step, if_pos hmints]
    rfl
  obtain ⟨hinv, hstuck, hminted⟩ := Stuck.requests ((inv_create 1).step _) hfirst (by decide) n
  rw [hone, ← runFrom_cons] at hminted
  rw [← runFrom_cons] at hinv hstuck
  have hnamed := always_iff_prefixes.mp hall (_ ++ [.nextEvent]) ⟨[.requestAlloc .generic 1], by
    rw [heldRun, List.append_assoc]
    rfl⟩
  have hlast := hall.last
  rw [heldRun, runFrom_append] at hlast
  rw [runFrom_append] at hnamed
  generalize runFrom step (create 1) _ = full at hinv hstuck hminted hnamed hlast
  have hpos := hinv.ring.cap_pos
  have hpulled : (full.step .nextEvent).core
      = { full.core with events := full.core.events.dropFront } := by
    show (edgecoreNextEvent full.core).1 = _
    rw [edgecoreNextEvent, if_neg (Nat.ne_of_gt (hpos.trans_le hstuck.full))]
  -- The slot in use was the first request, and the next one is a whole period later.
  have hspaced := (named_step_iff (hinv.step .nextEvent) hnamed (.requestAlloc .generic 1)).mp hlast
  have hbufs : (full.step .nextEvent).core.bufs = heldSlot :: List.replicate 31 {} := by
    rw [hpulled]
    exact hstuck.bufs
  refine hspaced (Stuck.mints hbufs) ?_ 0 heldSlot (by rw [hbufs]; rfl) (by decide) ?_
  · rw [hpulled]
    have hfits := hinv.ring.fits
    simp only [RingBuf.cnt_dropFront, RingBuf.cap_dropFront]
    omega
  · have hid := ((hinv.step .nextEvent).ids 0 heldSlot (by rw [hbufs]; rfl) (by decide)).1
    have hborn : 0 ≡ (full.step .nextEvent).born 0 [MOD ID_PERIOD] := idOf_eq_iff.mp hid
    have hno : ¬ CoreOp.nextEvent.Mints full.core := id
    have hcount : (full.step .nextEvent).minted = full.minted := by rw [step, if_neg hno]
    rw [hcount, hminted]
    exact hborn.symm.trans hn

/-- A buffer stays in use while `2 ^ 32 - 2` more requests are made. -/
def wrapRun : List CoreOp := heldRun (2 ^ 32 - 2)

theorem not_always_named_wrapRun : ¬ Always step Named (create 1) wrapRun :=
  not_always_named_heldRun (by decide)

end MintHistory

end Edgehost
