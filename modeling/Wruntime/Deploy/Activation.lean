import Mathlib.Tactic.IntervalCases
import Wruntime.Lib.Runs

/-!
The selection of a manager on its host. Activation replaces the config and then the descriptor,
keeping a copy of each as the previous one, while the unit is masked; `restore-config` swaps both
back. A file is known by its digest.
-/

namespace Wruntime.Deploy

open Runs

/-- What the launcher reads: the digest of the config, and the paths of executable, unit and
credential set with theirs. -/
structure Descriptor where
  configDigest : String
  artifacts : List (String × String)
  deriving DecidableEq

structure Host where
  current : Option Descriptor := none
  previous : Option Descriptor := none
  next : Option Descriptor := none
  config : Option String := none
  previousConfig : Option String := none
  nextConfig : Option String := none
  artifacts : List (String × String) := []
  masked : Bool := false
  /-- The selection that the unit runs on. -/
  running : Option Descriptor := none
  /-- The descriptors that were ever selected. -/
  selected : List Descriptor := []
  deriving DecidableEq

namespace Host

def verifies (h : Host) (d : Descriptor) : Bool :=
  h.config = some d.configDigest ∧ ∀ a ∈ d.artifacts, a ∈ h.artifacts

/-- `systemctl start`, which fails for a masked unit and when the launcher exits. -/
def start (h : Host) : Option Host := do
  let d ← h.current
  guard (h.masked = false ∧ h.verifies d = true)
  return { h with running := some d }

/-- `stage_target`. -/
def stage (h : Host) (d : Descriptor) (config : String) : Host :=
  { h with
    next := some d
    nextConfig := some config
    artifacts := h.artifacts ++ d.artifacts }

/-- The steps of `manager_activation_command` in order, with what they test. -/
def steps (old new : Descriptor) (configDigest : String) : List (Host → Option Host) :=
  [fun h => do guard (h.next = some new); return h,
    fun h => do guard (h.current.all (· = old)); return h,
    -- The copy of the descriptor is made under another name and moved.
    some,
    fun h => some { h with previous := h.current.or h.previous },
    fun h => some { h with running := none },
    fun h => some { h with masked := true },
    fun h => do guard (h.nextConfig = some configDigest); return h,
    some,
    fun h => some { h with previousConfig := h.config.or h.previousConfig },
    fun h => some { h with config := h.nextConfig, nextConfig := none },
    fun h => some { h with
      current := h.next, next := none, selected := h.selected ++ h.next.toList },
    fun h => some { h with masked := false },
    -- `unmask` and `enable`
    some,
    some,
    start]

def activated (h : Host) (old new : Descriptor) (config : String) (n : Nat) : Option Host :=
  ((steps old new config).take n).foldlM (fun h step => step h) (h.stage new config)

def restoreConfig (h : Host) : Option Host := do
  let previousConfig ← h.previousConfig
  let previous ← h.previous
  let config ← h.config
  let current ← h.current
  start { h with
    current := some previous
    previous := some current
    config := some previousConfig
    previousConfig := some config
    running := none }

inductive Event
  | activate (old new : Descriptor) (config : String)
  | restore

def complete (h : Host) : Event → Option Host
  | .activate old new config => h.activated old new config 15
  | .restore => h.restoreConfig

def after (h : Host) (e : Event) : Host := (h.complete e).getD h

def Completes (h : Host) (e : Event) : Prop := (h.complete e).isSome = true

/-- The restored unit runs on a descriptor that was selected before and verifies. -/
def Restored (h : Host) : Prop :=
  ∃ h' d, h.restoreConfig = some h' ∧ h'.running = some d ∧ h'.current = some d ∧
    h'.verifies d = true ∧ d ∈ h.selected

/-- The host was installed, and has completed an activation since. -/
def Reactivated (h : Host) : Prop :=
  ∃ h₀ old new config, Reach after Completes {} h₀ ∧ h₀.current.isSome = true ∧
    h₀.Completes (.activate old new config) ∧
    Reach after Completes (h₀.after (.activate old new config)) h

/-- A descriptor that was selected, with the config and the artifacts that it names. -/
structure Whole (h : Host) (config : Option String) (d : Descriptor) : Prop where
  selected : d ∈ h.selected
  config : config = some d.configDigest
  artifacts : ∀ a ∈ d.artifacts, a ∈ h.artifacts

/-- Both selections are whole, and the unit can be started. -/
structure Sound (h : Host) : Prop where
  unmasked : h.masked = false
  first : h.current = none → h.previous = none
  current : ∀ d, h.current = some d → h.Whole h.config d
  previous : ∀ d, h.previous = some d → h.Whole h.previousConfig d

variable {h h' : Host} {old new d : Descriptor} {config : String}

theorem verifies_iff : h.verifies d = true ↔
    h.config = some d.configDigest ∧ ∀ a ∈ d.artifacts, a ∈ h.artifacts := decide_eq_true_iff

theorem start_eq_some : h.start = some h' ↔ ∃ d, h.current = some d ∧ h.masked = false ∧
    h.verifies d = true ∧ h' = { h with running := some d } := by
  simp [start, Option.bind_eq_some_iff, guard, and_assoc, eq_comm (a := h')]

theorem restoreConfig_eq_some : h.restoreConfig = some h' ↔
    ∃ previousConfig, h.previousConfig = some previousConfig ∧ ∃ previous,
      h.previous = some previous ∧ ∃ config, h.config = some config ∧ ∃ current,
      h.current = some current ∧ h.masked = false ∧ previousConfig = previous.configDigest ∧
      (∀ a ∈ previous.artifacts, a ∈ h.artifacts) ∧ h' = { h with
        current := some previous, previous := some current, config := some previousConfig,
        previousConfig := some config, running := some previous } := by
  simp [restoreConfig, Option.bind_eq_some_iff, start_eq_some, verifies_iff, and_assoc]

theorem sound_after (hs : h.Sound) {e : Event} (hok : h.Completes e) :
    (h.after e).Sound ∧ (h.after e).current.isSome = true ∧
      (h.current.isSome = true → (h.after e).previous.isSome = true) := by
  obtain ⟨h', hh'⟩ := Option.isSome_iff_exists.1 hok
  rw [after, hh']
  cases e with
  | activate old new config =>
    simp [complete, activated, steps, stage, start, Option.bind_eq_some_iff, guard] at hh'
    obtain ⟨_, hverifies, rfl⟩ := hh'
    refine ⟨⟨rfl, nofun, ?_, ?_⟩, rfl, fun hcurrent => by simp [hcurrent]⟩
    · rintro d ⟨⟩
      obtain ⟨hconfig, hartifacts⟩ := verifies_iff.1 hverifies
      exact ⟨by simp, hconfig, hartifacts⟩
    · intro d hd
      cases hcurrent : h.current with
      | none => simp [hcurrent, hs.first hcurrent] at hd
      | some before =>
        obtain rfl : before = d := by simpa [hcurrent] using hd
        obtain ⟨hselected, hconfig, hartifacts⟩ := hs.current before hcurrent
        exact ⟨by simp [hselected], by simp [hconfig], fun a ha =>
          List.mem_append_left _ (hartifacts a ha)⟩
  | restore =>
    obtain ⟨_, _, _, hprevious, _, hconfig, _, hcurrent, hmasked, rfl, hartifacts, rfl⟩ :=
      restoreConfig_eq_some.1 hh'
    have hselected := (hs.previous _ hprevious).selected
    have hwhole := hs.current _ hcurrent
    refine ⟨⟨hmasked, nofun, ?_, ?_⟩, rfl, fun _ => rfl⟩
    · rintro d ⟨⟩
      exact ⟨hselected, rfl, hartifacts⟩
    · rintro d ⟨⟩
      exact ⟨hwhole.selected, hconfig.symm.trans hwhole.config, hwhole.artifacts⟩

theorem Reactivated.sound (hh : h.Reactivated) :
    h.Sound ∧ h.current.isSome = true ∧ h.previous.isSome = true := by
  obtain ⟨h₀, old, new, config, hfirst, hinstalled, hsecond, hrun⟩ := hh
  have hstart : ({} : Host).Sound := ⟨rfl, fun _ => rfl, nofun, nofun⟩
  have hsound := hfirst.invariant (P := Sound) hstart fun _ _ _ hok hs => (sound_after hs hok).1
  obtain ⟨hsound, hcurrent, hprevious⟩ := sound_after hsound hsecond
  refine hrun.invariant (P := fun h => h.Sound ∧ h.current.isSome = true ∧ h.previous.isSome = true)
    ⟨hsound, hcurrent, hprevious hinstalled⟩ ?_
  rintro s e _ hok ⟨hs, hcurrent, _⟩
  obtain ⟨hs', hcurrent', hprevious'⟩ := sound_after hs hok
  exact ⟨hs', hcurrent', hprevious' hcurrent⟩

theorem restored_iff (hcurrent : h.current.isSome = true) (hconfig : h.config.isSome = true) :
    h.Restored ↔ h.masked = false ∧ ∃ d, h.previous = some d ∧ h.Whole h.previousConfig d := by
  obtain ⟨current, hcurrent⟩ := Option.isSome_iff_exists.1 hcurrent
  obtain ⟨config, hconfig⟩ := Option.isSome_iff_exists.1 hconfig
  constructor
  · rintro ⟨h', d', hok, hrunning, -, -, hselected⟩
    obtain ⟨_, hdigest, d, hd, _, _, _, _, hmasked, rfl, hartifacts, rfl⟩ :=
      restoreConfig_eq_some.1 hok
    obtain rfl := Option.some.inj hrunning
    exact ⟨hmasked, d, hd, hselected, hdigest, hartifacts⟩
  · rintro ⟨hmasked, d, hd, hselected, hdigest, hartifacts⟩
    exact ⟨_, d, restoreConfig_eq_some.2 ⟨_, hdigest, d, hd, config, hconfig, current, hcurrent,
      hmasked, rfl, hartifacts, rfl⟩, rfl, rfl, verifies_iff.2 ⟨rfl, hartifacts⟩, hselected⟩

theorem activated_fields {n : Nat} (hn : n ≤ 15) (hcurrent : h.current = some d)
    (hmasked : h.masked = false) (hconfig : h.config.isSome = true)
    (hok : h.activated old new config n = some h') :
    h'.current.isSome = true ∧ h'.config.isSome = true ∧ h'.masked = decide (6 ≤ n ∧ n < 12) ∧
    h'.previous = (if n < 4 then h.previous else some d) ∧
    h'.previousConfig = (if n < 9 then h.previousConfig else h.config) ∧
    (∀ d ∈ h.selected, d ∈ h'.selected) ∧ ∀ a ∈ h.artifacts, a ∈ h'.artifacts := by
  obtain ⟨c, hc⟩ := Option.isSome_iff_exists.1 hconfig
  interval_cases n
  all_goals
    simp [Host.activated, steps, stage, start, Option.bind_eq_some_iff, guard, hcurrent,
      hc] at hok
  all_goals grind

/-- An interrupted activation can be restored before it saves the descriptor and after it unmasks
the unit. In between the unit is masked, or would start with the wrong config. -/
theorem interrupted_activation_restored_iff (hh : h.Reactivated) {n : Nat} (hn : n ≤ 15)
    (hok : h.activated old new config n = some h') :
    h'.Restored ↔ n < 4 ∨ n < 6 ∧ h.config = h.previousConfig ∨ 12 ≤ n := by
  obtain ⟨hs, hcurrent, hprevious⟩ := hh.sound
  obtain ⟨d₁, hd₁⟩ := Option.isSome_iff_exists.1 hcurrent
  obtain ⟨d₀, hd₀⟩ := Option.isSome_iff_exists.1 hprevious
  have hwhole := hs.current d₁ hd₁
  obtain ⟨hcurrent', hconfig', hmasked', hprevious', hpreviousConfig', hselected', hartifacts'⟩ :=
    activated_fields hn hd₁ hs.unmasked (by simp [hwhole.config]) hok
  have hkeep {c d} (hwhole : h.Whole c d) : h'.Whole c d :=
    ⟨hselected' _ hwhole.selected, hwhole.config, fun a ha => hartifacts' a (hwhole.artifacts a ha)⟩
  have hold : h'.Whole h.previousConfig d₀ := hkeep (hs.previous d₀ hd₀)
  have hnew : h'.Whole h.config d₁ := hkeep hwhole
  have hmixed : h'.Whole h.previousConfig d₁ ↔ h.config = h.previousConfig :=
    ⟨fun hmixed => hwhole.config.trans hmixed.config.symm, fun heq => heq ▸ hnew⟩
  rw [restored_iff hcurrent' hconfig', hmasked', hprevious', hpreviousConfig', hd₀]
  grind

def first : Descriptor := ⟨"c1", []⟩

def second : Descriptor := ⟨"c2", []⟩

def installed : Host := after {} (.activate first first "c1")

def settled : Host := installed.after (.activate first second "c2")

theorem settled_reactivated : settled.Reactivated :=
  ⟨installed, first, second, "c2", .single (by unfold Completes; decide +kernel),
    by decide +kernel, by unfold Completes; decide +kernel, .refl⟩

theorem checked_activation_restored :
    settled.Reactivated ∧ settled.activated second first "c1" 2 = some (settled.stage first "c1") ∧
      (settled.stage first "c1").Restored :=
  have hok : settled.activated second first "c1" 2 = some (settled.stage first "c1") := by
    decide +kernel
  ⟨settled_reactivated, hok,
    (interrupted_activation_restored_iff settled_reactivated (by decide) hok).2 (.inl (by decide))⟩

/-- With the descriptor saved without its config, or the unit masked, it cannot be started. -/
theorem interrupted_activation_not_restored :
    settled.Reactivated ∧
      (settled.activated second first "c1" 4).map restoreConfig = some none ∧
      (settled.activated second first "c1" 6).map restoreConfig = some none :=
  ⟨settled_reactivated, by decide +kernel, by decide +kernel⟩

/-- `restore-config` takes a completed activation back, and then takes that back. -/
theorem restore_undoes_activation (hh : h.Reactivated)
    (hok : h.activated old new config 15 = some h') :
    ∃ h'', h'.restoreConfig = some h'' ∧ h''.running = h.current ∧ h''.current = h.current ∧
      h''.config = h.config ∧ h''.restoreConfig = some h' := by
  obtain ⟨hs, hcurrent, _⟩ := hh.sound
  obtain ⟨d, hd⟩ := Option.isSome_iff_exists.1 hcurrent
  obtain ⟨_, hconfig, hartifacts⟩ := hs.current d hd
  simp [activated, steps, stage, start, Option.bind_eq_some_iff, guard, hd, hconfig] at hok
  obtain ⟨_, hverifies, rfl⟩ := hok
  obtain ⟨hnew, hkept⟩ := verifies_iff.1 hverifies
  refine ⟨_, restoreConfig_eq_some.2 ⟨_, rfl, d, rfl, _, rfl, new, rfl, rfl, rfl,
    fun a ha => List.mem_append_left _ (hartifacts a ha), rfl⟩, hd.symm, hd.symm, hconfig.symm, ?_⟩
  exact restoreConfig_eq_some.2 ⟨_, rfl, new, rfl, _, rfl, d, rfl, rfl, Option.some.inj hnew,
    hkept, rfl⟩

theorem settled_activation_undone :
    settled.Reactivated ∧ ∃ h' h'', settled.activated second first "c1" 15 = some h' ∧
      h'.restoreConfig = some h'' ∧ h''.running = some second := by
  obtain ⟨h', hok⟩ := Option.isSome_iff_exists.1
    (show (settled.activated second first "c1" 15).isSome = true by decide +kernel)
  obtain ⟨h'', hrestored, hrunning, -⟩ := restore_undoes_activation settled_reactivated hok
  exact ⟨settled_reactivated, h', h'', hok, hrestored, hrunning.trans (by decide +kernel)⟩

end Host

end Wruntime.Deploy
