import Edgehost.Core.EdgecoreQueue
import Edgehost.Host.ConfigYaml

/-!
# Reloading the configuration (`config_hup.c`)

A reload loads the file into a shadow and hands the shadow to the core, which validates it before it
takes the place of the active configuration. `ConfigHistory` follows a core through its own operations
and reloads of arbitrary files, together with the last configuration that was accepted.

* `ConfigOp.cfg_of_refused`: what is not accepted leaves the active configuration alone.
* `always_configOk`: the active configuration is valid, counts the accepted ones in its generation, and
  is otherwise the last of them.
-/

namespace Edgehost

/-! ## The reload -/

/-- What a reload finds: the file system, the memory and the YAML parser. -/
structure ReloadEnv (χ : Type*) where
  lib : YamlLib χ
  openFile : Bytes → Option Bytes
  alloc : Bool

variable {χ : Type*}

/-- The shadow that a reload loads. -/
def ReloadEnv.shadow (env : ReloadEnv χ) (path : Bytes) : Except Bytes EdgeConfig :=
  edgeConfigLoadYamlPath env.lib env.openFile env.alloc path 160

/-- `edgehost_reload_config`, with the text left in an error buffer of `errLen` bytes. -/
def edgehostReloadConfig (env : ReloadEnv χ) (core : Edgecore) (path : Option Bytes) (errLen : ℕ) :
    Edgecore × ℤ × Bytes :=
  match path with
  | none => (core, -1, snprintf errLen (bytes "null args"))
  | some path =>
    match env.shadow path with
    | .error localErr =>
      ((edgecoreNotifyConfigRejected core (some localErr)).1, -1, snprintf errLen localErr)
    | .ok shadow =>
      let (core, rc) := edgecoreApplyConfig core (some shadow)
      if rc ≠ 0 then (core, -1, snprintf errLen (bytes "apply_config rejected")) else (core, 0, [])

/-- `edgecore_config`. -/
def edgecoreConfig (core : Edgecore) : EdgeConfig := core.cfg

/-! ## Histories -/

/-- An operation of the core, or a reload. -/
inductive ConfigOp (χ : Type*)
  | core (op : CoreOp)
  | reload (env : ReloadEnv χ) (path : Option Bytes) (errLen : ℕ)

/-- Run an operation. -/
def ConfigOp.apply (core : Edgecore) : ConfigOp χ → Edgecore
  | .core op => (op.apply core).1
  | .reload env path errLen => (edgehostReloadConfig env core path errLen).1

/-- The configuration that an operation puts in place, when it reports success. -/
def ConfigOp.accepted (core : Edgecore) : ConfigOp χ → Option EdgeConfig
  | .core (.applyConfig (some cfg)) =>
    if (edgecoreApplyConfig core (some cfg)).2 = 0 then some cfg else none
  | .reload env (some path) errLen =>
    if (edgehostReloadConfig env core (some path) errLen).2.1 = 0 then (env.shadow path).toOption
    else none
  | _ => none

/-- A core, the number of configurations it has accepted, and the last of them. -/
structure ConfigHistory where
  core : Edgecore
  applies : ℕ
  last : EdgeConfig

namespace ConfigHistory

/-- The history of a new core. -/
def create (eventQueueSize : ℕ) : ConfigHistory :=
  ⟨edgecoreCreateWithConfig eventQueueSize, 0, edgeConfigDefaults⟩

/-- Run one operation and record what it has put in place. -/
def step (h : ConfigHistory) (op : ConfigOp χ) : ConfigHistory :=
  match op.accepted h.core with
  | none => { h with core := op.apply h.core }
  | some cfg => ⟨op.apply h.core, h.applies + 1, cfg⟩

/-- The active configuration is valid, its generation counts what was accepted, and its other fields
are those of the last one accepted. -/
structure ConfigOk (h : ConfigHistory) : Prop where
  validates : ∀ errLen, edgeConfigValidate (some (edgecoreConfig h.core)) errLen = .ok ()
  generation : h.applies < 2 ^ 64 → (edgecoreConfig h.core).generation.toNat = h.applies
  fields : ∀ generation,
    { edgecoreConfig h.core with generation } = { h.last with generation }

end ConfigHistory

/-! ## What an operation does to the configuration -/

theorem emitEvent_cfg (core : Edgecore) (ev : EdgeEvent) : (emitEvent core ev).1.cfg = core.cfg := by
  rcases emitEvent_cases core ev with ⟨-, heq⟩ | ⟨-, heq⟩ <;> rw [heq]

theorem edgecoreRequestAlloc_cfg (core : Edgecore) (kind : EdgeBufKind) (size : ℕ) :
    (edgecoreRequestAlloc core kind size).1.cfg = core.cfg := by
  unfold edgecoreRequestAlloc
  split_ifs
  · rfl
  cases findFreeSlot core with
  | none => rfl
  | some i =>
    simp only
    split_ifs
    · exact emitEvent_cfg _ _
    · exact emitEvent_cfg _ _

theorem edgecoreRequestRealloc_cfg (core : Edgecore) (allocId : UInt32) (newSize : ℕ) :
    (edgecoreRequestRealloc core allocId newSize).1.cfg = core.cfg := by
  unfold edgecoreRequestRealloc
  split_ifs
  · rfl
  cases findSlotById core allocId with
  | none => rfl
  | some i =>
    simp only
    cases core.bufs[i]? with
    | none => rfl
    | some slot =>
      simp only
      split_ifs
      · rfl
      · exact emitEvent_cfg _ _
      · exact emitEvent_cfg _ _

theorem edgecoreProvideBuffer_cfg (core : Edgecore) (allocId : UInt32) (ptr : Ptr) (size : ℕ) :
    (edgecoreProvideBuffer core allocId ptr size).1.cfg = core.cfg := by
  unfold edgecoreProvideBuffer
  split_ifs
  · rfl
  cases findSlotById core allocId with
  | none => rfl
  | some i =>
    simp only
    cases core.bufs[i]? with
    | none => rfl
    | some slot =>
      simp only
      split_ifs <;> rfl

theorem edgecoreDetachBuffer_cfg (core : Edgecore) (allocId : UInt32) :
    (edgecoreDetachBuffer core allocId).1.cfg = core.cfg := by
  unfold edgecoreDetachBuffer
  split_ifs
  · rfl
  cases findSlotById core allocId with
  | none => rfl
  | some i =>
    simp only
    cases core.bufs[i]? <;> rfl

theorem edgecoreNextEvent_cfg (core : Edgecore) : (edgecoreNextEvent core).1.cfg = core.cfg := by
  unfold edgecoreNextEvent
  split_ifs <;> rfl

theorem edgecoreNotifyConfigRejected_cfg (core : Edgecore) (reason : Option Bytes) :
    (edgecoreNotifyConfigRejected core reason).1.cfg = core.cfg :=
  emitEvent_cfg core _

/-- The two outcomes of applying a configuration. -/
theorem edgecoreApplyConfig_cases (core : Edgecore) (cfg : EdgeConfig) :
    ((edgecoreApplyConfig core (some cfg)).2 = 0 ∧ cfg.Valid ∧
      (edgecoreApplyConfig core (some cfg)).1.cfg = acceptedConfig core cfg) ∨
    ((edgecoreApplyConfig core (some cfg)).2 = -1 ∧
      (edgecoreApplyConfig core (some cfg)).1.cfg = core.cfg) := by
  cases hval : edgeConfigValidate (some cfg) 96 with
  | error verr =>
    rw [edgecoreApplyConfig_error hval]
    exact .inr ⟨rfl, emitEvent_cfg _ _⟩
  | ok u =>
    rw [edgecoreApplyConfig_ok hval]
    exact .inl ⟨rfl, (edgeConfigValidate_ok_iff cfg 96).mp hval, emitEvent_cfg _ _⟩

/-- The two outcomes of a reload. -/
theorem edgehostReloadConfig_cases (env : ReloadEnv χ) (core : Edgecore) (path : Bytes)
    (errLen : ℕ) :
    (∃ cfg, env.shadow path = .ok cfg ∧ (edgehostReloadConfig env core (some path) errLen).2.1 = 0 ∧
      cfg.Valid ∧
      (edgehostReloadConfig env core (some path) errLen).1.cfg = acceptedConfig core cfg) ∨
    ((edgehostReloadConfig env core (some path) errLen).2.1 = -1 ∧
      (edgehostReloadConfig env core (some path) errLen).1.cfg = core.cfg) := by
  simp only [edgehostReloadConfig]
  cases hload : env.shadow path with
  | error localErr => exact .inr ⟨rfl, edgecoreNotifyConfigRejected_cfg _ _⟩
  | ok shadow =>
    rcases edgecoreApplyConfig_cases core shadow with ⟨hrc, hvalid, hcfg⟩ | ⟨hrc, hcfg⟩
    · refine .inl ⟨shadow, rfl, ?_⟩
      simp only [hrc]
      exact ⟨rfl, hvalid, hcfg⟩
    · refine .inr ?_
      simp only [hrc]
      exact ⟨rfl, hcfg⟩

/-- **What is not accepted leaves the active configuration alone.** -/
theorem ConfigOp.cfg_of_refused {core : Edgecore} {op : ConfigOp χ} (h : op.accepted core = none) :
    edgecoreConfig (op.apply core) = edgecoreConfig core := by
  match op with
  | .core (.requestAlloc kind size) => exact edgecoreRequestAlloc_cfg core kind size
  | .core (.requestRealloc allocId newSize) => exact edgecoreRequestRealloc_cfg core allocId newSize
  | .core (.provideBuffer allocId ptr size) => exact edgecoreProvideBuffer_cfg core allocId ptr size
  | .core (.detachBuffer allocId) => exact edgecoreDetachBuffer_cfg core allocId
  | .core (.applyConfig none) => rfl
  | .core (.applyConfig (some cfg)) =>
    rcases edgecoreApplyConfig_cases core cfg with ⟨hrc, -, -⟩ | ⟨-, hcfg⟩
    · rw [ConfigOp.accepted, if_pos hrc] at h
      cases h
    · exact hcfg
  | .core (.notifyConfigRejected reason) => exact edgecoreNotifyConfigRejected_cfg core reason
  | .core .nextEvent => exact edgecoreNextEvent_cfg core
  | .reload env none errLen => rfl
  | .reload env (some path) errLen =>
    rcases edgehostReloadConfig_cases env core path errLen with ⟨cfg, hload, hrc, -, -⟩ | ⟨-, hcfg⟩
    · rw [ConfigOp.accepted, if_pos hrc, hload] at h
      cases h
    · exact hcfg

/-- What is accepted is valid and becomes the active configuration, under the next generation. -/
theorem ConfigOp.cfg_of_accepted {core : Edgecore} {op : ConfigOp χ} {cfg : EdgeConfig}
    (h : op.accepted core = some cfg) :
    cfg.Valid ∧ edgecoreConfig (op.apply core) = acceptedConfig core cfg := by
  match op with
  | .core (.applyConfig (some cfg')) =>
    rcases edgecoreApplyConfig_cases core cfg' with ⟨hrc, hvalid, hcfg⟩ | ⟨hrc, -⟩
    · rw [ConfigOp.accepted, if_pos hrc] at h
      obtain rfl := Option.some.inj h
      exact ⟨hvalid, hcfg⟩
    · rw [ConfigOp.accepted, if_neg (by rw [hrc]; decide)] at h
      cases h
  | .reload env (some path) errLen =>
    rcases edgehostReloadConfig_cases env core path errLen with
      ⟨cfg', hload, hrc, hvalid, hcfg⟩ | ⟨hrc, -⟩
    · rw [ConfigOp.accepted, if_pos hrc, hload] at h
      obtain rfl := Option.some.inj h
      exact ⟨hvalid, hcfg⟩
    · rw [ConfigOp.accepted, if_neg (by rw [hrc]; decide)] at h
      cases h

/-! ## Whole runs -/

namespace ConfigHistory

theorem valid_acceptedConfig {cfg : EdgeConfig} (h : cfg.Valid) (core : Edgecore) :
    (acceptedConfig core cfg).Valid :=
  ⟨h.listenHost, h.listenPort, h.httpMaxBodyBytes, h.httpMaxPendingOutbound,
    h.httpMaxUpstreamBodyBytes, h.authMode, h.authSessionTtlS, h.authProxyMaxSkewS⟩

/-- Below `2 ^ 64` the next generation is one more. -/
theorem acceptedConfig_generation {core : Edgecore} {cfg : EdgeConfig} {n : ℕ}
    (hgen : core.cfg.generation.toNat = n) (hn : n + 1 < 2 ^ 64) :
    (acceptedConfig core cfg).generation.toNat = n + 1 := by
  have hsum : (core.cfg.generation + 1).toNat = n + 1 := by
    rw [UInt64.toNat_add, hgen, UInt64.toNat_one, Nat.mod_eq_of_lt hn]
  have hne : core.cfg.generation + 1 ≠ 0 := by
    intro hzero
    rw [hzero, UInt64.toNat_zero] at hsum
    omega
  rw [acceptedConfig, if_neg hne, hsum]

theorem create_configOk (eventQueueSize : ℕ) : (create eventQueueSize).ConfigOk where
  validates errLen := (edgeConfigValidate_ok_iff _ errLen).mpr edgeConfigDefaults_valid
  generation _ := rfl
  fields _ := rfl

theorem step_configOk (h : ConfigHistory) (op : ConfigOp χ) (hok : h.ConfigOk) :
    (h.step op).ConfigOk := by
  unfold step
  cases hacc : op.accepted h.core with
  | none =>
    have hcfg := ConfigOp.cfg_of_refused hacc
    exact ⟨fun errLen => hcfg ▸ hok.validates errLen, fun hlt => hcfg ▸ hok.generation hlt,
      fun generation => hcfg ▸ hok.fields generation⟩
  | some cfg =>
    obtain ⟨hvalid, hcfg⟩ := ConfigOp.cfg_of_accepted hacc
    refine ⟨fun errLen => ?_, fun hlt => ?_, fun generation => ?_⟩
    · rw [hcfg]
      exact (edgeConfigValidate_ok_iff _ errLen).mpr (valid_acceptedConfig hvalid _)
    · rw [hcfg]
      exact acceptedConfig_generation (hok.generation (Nat.lt_of_succ_lt hlt)) hlt
    · rw [hcfg]
      rfl

/-- **The active configuration over every run** of operations and reloads: it is in order in every
state, and what puts no new one in place leaves it alone. -/
theorem always_configOk (eventQueueSize : ℕ) (ops : List (ConfigOp χ)) :
    Always step ConfigOk (create eventQueueSize) ops ∧
      ∀ (h : ConfigHistory) (op : ConfigOp χ), op.accepted h.core = none →
        edgecoreConfig (h.step op).core = edgecoreConfig h.core := by
  constructor
  · exact always_of_step (fun h op => step_configOk h op) (create_configOk eventQueueSize) ops
  · intro h op hacc
    rw [step, hacc]
    exact ConfigOp.cfg_of_refused hacc

end ConfigHistory

end Edgehost
