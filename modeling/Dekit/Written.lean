import Dekit.Merge
import Dekit.Task

/-! `TaskSpec::from_config`: the definition a task's config is written as. -/

namespace Dekit

def formatDuration (duration : Duration) : String :=
  let ms := duration.asMillis
  if ms = 0 ∨ ms % 1000 ≠ 0 then toString ms ++ "ms"
  else
    let s := ms / 1000
    if s % 3600 = 0 then toString (s / 3600) ++ "h"
    else if s % 60 = 0 then toString (s / 60) ++ "m"
    else toString s ++ "s"

def RestartMode.name : RestartMode → String
  | .never => "never"
  | .onFailure => "on-failure"
  | .always => "always"

inductive CmdConfig
  | cmd (argv : List String)
  | script (path : String)

inductive Probe
  | tcp (host : Option String) (port : ℕ)
  | http (url : String)
  | cmd (argv : List String)
  | file (path : String)

inductive ReadyCheck
  | log (text : String)
  | probe (probe : Probe) (interval : Duration)
  | sdNotify

structure ReadyConfig where
  check : ReadyCheck
  timeout : Option Duration

def defaultInterval : Duration := Duration.fromSecs 1

/-- A signal by its name, a key by its spec. -/
inductive StopSignal
  | signal (sig : String) (group : Bool)
  | keys (keys : List String)
  | cmd (argv : List String)

structure StopConfig where
  signal : Option StopSignal
  timeout : Option Duration

inductive LogMode
  | append
  | truncate

structure TaskLogConfig where
  enabled : Option Bool
  dir : Option String
  file : Option String
  mode : Option LogMode

/-- The variables of an `env`, each once; one without a value is unset. -/
structure EnvVars where
  vars : List (String × Option String)
  nodup : (vars.map Prod.fst).Nodup

/-- The config of one task; paths are as they are written. -/
structure TaskConfig where
  label : Option String := none
  cmd : Option CmdConfig := none
  deps : List String := []
  tags : List String := []
  kind : TaskKind := .service
  ready : Option ReadyConfig := none
  cwd : Option String := none
  env : Option EnvVars := none
  addPath : Option (List String) := none
  autostart : Option Bool := none
  autorestart : Option RestartMode := none
  stop : Option StopConfig := none
  log : Option TaskLogConfig := none
  scrollbackLen : Option ℕ := none
  mouseScrollSpeed : Option ℕ := none

def stringsValue (items : List String) : Value := .sequence (items.map .string)

/-- The key and value a probe is written as. -/
def Probe.entry : Probe → String × Value
  | .tcp none port => ("tcp", .number (toString port))
  | .tcp (some host) port =>
    let host := if host.toList.contains ':' then "[" ++ host ++ "]" else host
    ("tcp", .string (host ++ ":" ++ toString port))
  | .http url => ("http", .string url)
  | .cmd argv => ("cmd", stringsValue argv)
  | .file path => ("file", .string path)

def ReadyConfig.entries (ready : ReadyConfig) : List (String × Value) :=
  let map := match ready.check with
    | .log text => insertEntry [] "log" (.string text)
    | .sdNotify => insertEntry [] "sd_notify" (.bool true)
    | .probe probe interval =>
      let map := insertEntry [] probe.entry.1 probe.entry.2
      if interval ≠ defaultInterval then insertEntry map "interval" (.string (formatDuration interval))
      else map
  match ready.timeout with
  | some timeout => insertEntry map "timeout" (.string (formatDuration timeout))
  | none => map

def StopConfig.entries (stop : StopConfig) : List (String × Value) :=
  let map := match stop.signal with
    | some (.signal sig group) =>
      let map := insertEntry [] "signal" (.string sig)
      if group then map else insertEntry map "group" (.bool false)
    | some (.keys keys) => insertEntry [] "keys" (stringsValue keys)
    | some (.cmd argv) => insertEntry [] "cmd" (stringsValue argv)
    | none => []
  match stop.timeout with
  | some timeout => insertEntry map "timeout" (.string (formatDuration timeout))
  | none => map

def LogMode.name : LogMode → String
  | .append => "append"
  | .truncate => "truncate"

def insertSome (entries : List (String × Value)) (key : String) (value : Option Value) :
    List (String × Value) :=
  match value with
  | some value => insertEntry entries key value
  | none => entries

def TaskLogConfig.entries (log : TaskLogConfig) : List (String × Value) :=
  let map := insertSome [] "enabled" (log.enabled.map .bool)
  let map := insertSome map "dir" (log.dir.map .string)
  let map := insertSome map "file" (log.file.map .string)
  insertSome map "mode" (log.mode.map fun mode => .string mode.name)

namespace TaskSpec

def setLog (s : TaskSpec) (log : Option TaskLogConfig) : TaskSpec :=
  s.set "log" (log.map fun log => .mapping log.entries)

def setSome (s : TaskSpec) (key : String) (value : Option Value) : TaskSpec :=
  match value with
  | some value => s.set key (some value)
  | none => s

def fromConfig (cfg : TaskConfig) : TaskSpec :=
  let spec : TaskSpec := ⟨[]⟩
  let spec := spec.setSome "label" (cfg.label.map .string)
  let spec := if cfg.kind = .job then spec.set "type" (some (.string "job")) else spec
  let spec := match cfg.cmd with
    | some (.cmd argv) => spec.set "cmd" (some (stringsValue argv))
    | some (.script path) => spec.set "script" (some (.string path))
    | none => spec
  let spec := spec.setDeps cfg.deps
  let spec := spec.setStrings "tags" cfg.tags
  let spec := spec.setSome "ready" (cfg.ready.map fun ready => .mapping ready.entries)
  let spec := spec.setSome "cwd" (cfg.cwd.map .string)
  let spec := spec.setSome "env" (cfg.env.map fun env =>
    .mapping (env.vars.map fun e => (e.1, (e.2.map Value.string).getD .null)))
  let spec := spec.setSome "add_path" (cfg.addPath.map stringsValue)
  let spec := spec.setSome "autostart" (cfg.autostart.map .bool)
  let spec := spec.setSome "autorestart" (cfg.autorestart.map fun restart => .string restart.name)
  let spec := match cfg.stop with
    | some stop =>
      if stop.entries.isEmpty then spec else spec.set "stop" (some (.mapping stop.entries))
    | none => spec
  let spec := spec.setLog cfg.log
  let spec := spec.setSome "scrollback_len" (cfg.scrollbackLen.map fun n => .number (toString n))
  spec.setSome "mouse_scroll_speed" (cfg.mouseScrollSpeed.map fun n => .number (toString n))

end TaskSpec

/-! What is written is keyed. -/

theorem Value.keyed_string (s : String) : (Value.string s).Keyed := trivial

theorem keyed_stringsValue (items : List String) : (stringsValue items).Keyed := by
  refine (keyedItems_iff _).mpr fun v hv => ?_
  obtain ⟨s, -, rfl⟩ := List.mem_map.mp hv
  trivial

def Entries (es : List (String × Value)) : Prop := (Value.mapping es).Keyed

theorem Entries.nil : Entries [] := ⟨List.nodup_nil, trivial⟩

theorem Entries.insert {es : List (String × Value)} (h : Entries es) (key : String) {value : Value}
    (hv : value.Keyed) : Entries (insertEntry es key value) := by
  refine ⟨nodup_insertEntry h.1 key value, (keyedEntries_iff _).mpr fun e he => ?_⟩
  obtain rfl | he := mem_insertEntry he
  · exact hv
  · exact (keyedEntries_iff es).mp h.2 e he

theorem Entries.insertSome {es : List (String × Value)} (h : Entries es) (key : String) {value : Option Value}
    (hv : ∀ v, value = some v → v.Keyed) : Entries (insertSome es key value) := by
  cases value with
  | none => exact h
  | some value => exact h.insert key (hv value rfl)

theorem Probe.keyed_entry (probe : Probe) : probe.entry.2.Keyed := by
  cases probe with
  | tcp host port => cases host <;> trivial
  | http url => trivial
  | cmd argv => exact keyed_stringsValue argv
  | file path => trivial

theorem ReadyConfig.keyed_entries (ready : ReadyConfig) : Entries ready.entries := by
  obtain ⟨check, timeout⟩ := ready
  have hmap : Entries (ReadyConfig.entries ⟨check, none⟩) := by
    cases check with
    | log text => exact Entries.nil.insert _ trivial
    | sdNotify => exact Entries.nil.insert _ trivial
    | probe probe interval =>
      unfold ReadyConfig.entries
      simp only
      split
      · exact (Entries.nil.insert _ probe.keyed_entry).insert _ trivial
      · exact Entries.nil.insert _ probe.keyed_entry
  cases timeout with
  | none => exact hmap
  | some timeout => exact hmap.insert "timeout" (Value.keyed_string _)

theorem StopConfig.keyed_entries (stop : StopConfig) : Entries stop.entries := by
  obtain ⟨signal, timeout⟩ := stop
  have hmap : Entries (StopConfig.entries ⟨signal, none⟩) := by
    cases signal with
    | none => exact Entries.nil
    | some how =>
      cases how with
      | signal sig group =>
        cases group with
        | true => exact Entries.nil.insert _ trivial
        | false => exact (Entries.nil.insert "signal" (Value.keyed_string sig)).insert "group" trivial
      | keys keys => exact Entries.nil.insert _ (keyed_stringsValue keys)
      | cmd argv => exact Entries.nil.insert _ (keyed_stringsValue argv)
  cases timeout with
  | none => exact hmap
  | some timeout => exact hmap.insert "timeout" (Value.keyed_string _)

theorem TaskLogConfig.keyed_entries (log : TaskLogConfig) : Entries log.entries := by
  obtain ⟨enabled, dir, file, mode⟩ := log
  refine (((Entries.nil.insertSome _ ?_).insertSome _ ?_).insertSome _ ?_).insertSome _ ?_
  · cases enabled <;> simp [Value.Keyed]
  · cases dir <;> simp [Value.Keyed]
  · cases file <;> simp [Value.Keyed]
  · cases mode <;> simp [Value.Keyed]

theorem EnvVars.keyed (env : EnvVars) :
    Entries (env.vars.map fun e => (e.1, (e.2.map Value.string).getD .null)) := by
  refine ⟨?_, (keyedEntries_iff _).mpr fun e he => ?_⟩
  · rw [List.map_map]
    exact env.nodup
  · obtain ⟨⟨var, value⟩, -, rfl⟩ := List.mem_map.mp he
    cases value <;> trivial

namespace TaskSpec.Keyed

theorem setSome {s : TaskSpec} (h : s.Keyed) (key : String) (value : Option Value) (hkey : envVar key = none)
    (hv : ∀ v, value = some v → v.Keyed) : (s.setSome key value).Keyed := by
  cases value with
  | none => exact h
  | some value => exact h.set key _ hkey hv

theorem setStrings {s : TaskSpec} (h : s.Keyed) (key : String) (items : List String)
    (hkey : envVar key = none) : (s.setStrings key items).Keyed := by
  refine h.set key _ hkey fun v hv => ?_
  split at hv
  · cases hv
  · cases hv
    exact keyed_stringsValue items

end TaskSpec.Keyed

theorem TaskSpec.keyed_fromConfig (cfg : TaskConfig) : (TaskSpec.fromConfig cfg).Keyed := by
  unfold fromConfig
  extract_lets s₀ s₁ s₂ s₃ s₄ s₅ s₆ s₇ s₈ s₉ s₁₀ s₁₁ s₁₂ s₁₃ s₁₄
  have h₀ : s₀.Keyed := ⟨List.nodup_nil, by simp [s₀], by simp [s₀]⟩
  have h₁ : s₁.Keyed := h₀.setSome _ _ (by decide) (by cases cfg.label <;> simp [Value.Keyed])
  have h₂ : s₂.Keyed := by
    simp only [s₂]
    split
    · exact h₁.set _ _ (by decide) (by simp [Value.Keyed])
    · exact h₁
  have h₃ : s₃.Keyed := by
    simp only [s₃]
    split
    · exact h₂.set _ _ (by decide) (by simp [keyed_stringsValue])
    · exact h₂.set _ _ (by decide) (by simp [Value.Keyed])
    · exact h₂
  have h₄ : s₄.Keyed := h₃.setStrings _ _ (by decide)
  have h₅ : s₅.Keyed := h₄.setStrings _ _ (by decide)
  have h₆ : s₆.Keyed := by
    refine h₅.setSome _ _ (by decide) fun v hv => ?_
    obtain ⟨ready, -, rfl⟩ := Option.map_eq_some_iff.mp hv
    exact ready.keyed_entries
  have h₇ : s₇.Keyed := h₆.setSome _ _ (by decide) (by cases cfg.cwd <;> simp [Value.Keyed])
  have h₈ : s₈.Keyed := by
    refine h₇.setSome _ _ (by decide) fun v hv => ?_
    obtain ⟨env, -, rfl⟩ := Option.map_eq_some_iff.mp hv
    exact env.keyed
  have h₉ : s₉.Keyed :=
    h₈.setSome _ _ (by decide) (by cases cfg.addPath <;> simp [keyed_stringsValue])
  have h₁₀ : s₁₀.Keyed := h₉.setSome _ _ (by decide) (by cases cfg.autostart <;> simp [Value.Keyed])
  have h₁₁ : s₁₁.Keyed := h₁₀.setSome _ _ (by decide) (by cases cfg.autorestart <;> simp [Value.Keyed])
  have h₁₂ : s₁₂.Keyed := by
    simp only [s₁₂]
    split
    · next stop _ =>
      split
      · exact h₁₁
      · refine h₁₁.set _ _ (by decide) fun v hv => ?_
        obtain rfl := Option.some.inj hv
        exact stop.keyed_entries
    · exact h₁₁
  have h₁₃ : s₁₃.Keyed := by
    refine h₁₂.set _ _ (by decide) fun v hv => ?_
    obtain ⟨log, -, rfl⟩ := Option.map_eq_some_iff.mp hv
    exact log.keyed_entries
  have h₁₄ : s₁₄.Keyed := h₁₃.setSome _ _ (by decide) (by cases cfg.scrollbackLen <;> simp [Value.Keyed])
  exact h₁₄.setSome _ _ (by decide) (by cases cfg.mouseScrollSpeed <;> simp [Value.Keyed])

/-- Both sides changed the key, each in its own way. -/
def Conflicting (base here config : TaskSpec) (key : String) : Prop :=
  ¬ sameValue (config.valueAt key) (base.valueAt key) ∧ ¬ sameValue (here.valueAt key) (base.valueAt key) ∧
    ¬ sameValue (here.valueAt key) (config.valueAt key)

section

variable {base here config : TaskSpec} (hb : base.Keyed) (hh : here.Keyed) (hc : config.Keyed)
include hb hh hc

theorem fields_ne_env {f : Field} (hf : f ∈ (merge base here config).1) : f.key ≠ "env" :=
  ((mem_merge hb hh hc f).mp hf).1

theorem exists_field {key : String} (hkey : key ≠ "env")
    (hcb : ¬ sameValue (config.valueAt key) (base.valueAt key))
    (hhc : ¬ sameValue (here.valueAt key) (config.valueAt key)) :
    ∃ f ∈ (merge base here config).1, f.key = key ∧
      f.conflict = !sameValue (here.valueAt key) (base.valueAt key) ∧
      f.take = sameValue (here.valueAt key) (base.valueAt key) := by
  let same := sameValue (here.valueAt key) (base.valueAt key)
  refine ⟨⟨key, base.valueAt key, here.valueAt key, config.valueAt key, !same, same⟩, ?_, rfl, rfl, rfl⟩
  exact (mem_merge hb hh hc _).mpr ⟨hkey, hcb, hhc, rfl, rfl, rfl, rfl, rfl⟩

theorem merge_default (moved : String → Option String) {key : String} (hkey : key ≠ "env")
    (hmoved : key = "deps" → ∀ dep ∈ config.deps, moved dep = none) :
    let after := (takeFields moved config here (merge base here config).1).valueAt key
    (sameValue (here.valueAt key) (base.valueAt key) ∨ sameValue (here.valueAt key) (config.valueAt key) →
        sameValue after (config.valueAt key)) ∧
      (¬ sameValue (here.valueAt key) (base.valueAt key) →
        ¬ sameValue (here.valueAt key) (config.valueAt key) → after = here.valueAt key) := by
  intro after
  have hafter : after = _ :=
    valueAt_takeFields moved hc hh hkey hmoved _ fun f hf => fields_ne_env hb hh hc hf
  split at hafter
  · next hex =>
    obtain ⟨f, hf, htake, rfl⟩ := hex
    obtain ⟨-, -, -, -, -, -, -, ht⟩ := (mem_merge hb hh hc f).mp hf
    refine ⟨fun _ => ?_, fun hhb => absurd (ht ▸ htake) hhb⟩
    rw [hafter]
    exact sameValue_refl fun v hv => hc.valueAt hv
  · next hex =>
    refine ⟨fun hor => ?_, fun _ _ => hafter⟩
    rw [hafter]
    by_contra hhc
    obtain hhb | hhc' := hor
    · -- What is here is the base's, and not taken: the config says the same as the base.
      by_cases hcb : sameValue (config.valueAt key) (base.valueAt key)
      · have hbc := sameValue_symm (fun v hv => hc.valueAt hv) (fun v hv => hb.valueAt hv) hcb
        exact hhc (sameValue_trans hhb hbc)
      · obtain ⟨f, hf, hfk, -, htake⟩ := exists_field hb hh hc hkey hcb hhc
        exact hex ⟨f, hf, by rw [htake, hhb], hfk⟩
    · exact hhc hhc'

theorem merge_conflicts {key : String} (hkey : key ≠ "env") :
    (∃ f ∈ (merge base here config).1, f.key = key ∧ f.conflict) ↔ Conflicting base here config key := by
  constructor
  · rintro ⟨f, hf, rfl, hconflict⟩
    obtain ⟨-, hcb, hhc, -, -, -, hcf, -⟩ := (mem_merge hb hh hc f).mp hf
    rw [hcf] at hconflict
    exact ⟨hcb, by simpa using hconflict, hhc⟩
  · rintro ⟨hcb, hhb, hhc⟩
    obtain ⟨f, hf, hfk, hconflict, -⟩ := exists_field hb hh hc hkey hcb hhc
    exact ⟨f, hf, hfk, by simpa [hconflict] using hhb⟩

theorem merge_all (moved : String → Option String) {key : String} (hkey : key ≠ "env")
    (hmoved : key = "deps" → ∀ dep ∈ config.deps, moved dep = none)
    (hcb : ¬ sameValue (config.valueAt key) (base.valueAt key)) :
    sameValue ((takeFields moved config here ((merge base here config).1.map fun f =>
      { f with take := true })).valueAt key) (config.valueAt key) := by
  have hne : ∀ f ∈ (merge base here config).1.map fun f => { f with take := true }, f.key ≠ "env" := by
    intro f hf
    obtain ⟨f, hmem, rfl⟩ := List.mem_map.mp hf
    exact fields_ne_env (f := f) hb hh hc hmem
  rw [valueAt_takeFields moved hc hh hkey hmoved _ hne]
  split
  · exact sameValue_refl fun v hv => hc.valueAt hv
  · next hex =>
    by_contra hhc
    obtain ⟨f, hf, hfk, -⟩ := exists_field hb hh hc hkey hcb hhc
    exact hex ⟨_, List.mem_map_of_mem hf, rfl, hfk⟩

end

/-- A reload's merge of what the base, the task here and the config say, and the diff it rests on. -/
theorem merge_three_way (was now said : TaskConfig) :
    let base := TaskSpec.fromConfig was
    let here := TaskSpec.fromConfig now
    let config := TaskSpec.fromConfig said
    let fields := (merge base here config).1
    (∀ key, key ≠ "env" →
      ((∃ f ∈ fields, f.key = key ∧ f.conflict) ↔ Conflicting base here config key) ∧
      ∀ moved : String → Option String, (key = "deps" → ∀ dep ∈ config.deps, moved dep = none) →
        let after := (takeFields moved config here fields).valueAt key
        let all := (takeFields moved config here (fields.map fun f => { f with take := true })).valueAt key
        (sameValue (here.valueAt key) (base.valueAt key) ∨
            sameValue (here.valueAt key) (config.valueAt key) → sameValue after (config.valueAt key)) ∧
          (¬ sameValue (here.valueAt key) (base.valueAt key) →
            ¬ sameValue (here.valueAt key) (config.valueAt key) → after = here.valueAt key) ∧
          (¬ sameValue (config.valueAt key) (base.valueAt key) → sameValue all (config.valueAt key))) ∧
    ∀ a b : TaskSpec, a.Keyed → b.Keyed →
      ((a.changedKeys b).foldl (fun s key => s.setAt key (b.valueAt key)) a).changedKeys b = [] := by
  intro base here config fields
  have hb : base.Keyed := TaskSpec.keyed_fromConfig was
  have hh : here.Keyed := TaskSpec.keyed_fromConfig now
  have hc : config.Keyed := TaskSpec.keyed_fromConfig said
  refine ⟨fun key hkey => ⟨merge_conflicts hb hh hc hkey, fun moved hmoved => ?_⟩,
    fun a b => changedKeys_foldl_setAt⟩
  obtain ⟨htaken, hkept⟩ := merge_default hb hh hc moved hkey hmoved
  exact ⟨htaken, hkept, merge_all hb hh hc moved hkey hmoved⟩

theorem merge_three_way_label :
    let config := TaskSpec.fromConfig { label := some "B" }
    sameValue ((takeFields (fun _ => none) config (TaskSpec.fromConfig {})
      (merge (TaskSpec.fromConfig {}) (TaskSpec.fromConfig {}) config).1).valueAt "label")
        (config.valueAt "label") ∧
      (((TaskSpec.fromConfig {}).changedKeys config).foldl
        (fun s key => s.setAt key (config.valueAt key)) (TaskSpec.fromConfig {})).changedKeys config = [] := by
  intro config
  obtain ⟨hkeys, hdiff⟩ := merge_three_way {} {} { label := some "B" }
  obtain ⟨htaken, -, -⟩ := (hkeys "label" (by decide)).2 (fun _ => none) (by decide)
  exact ⟨htaken (.inl (by decide)),
    hdiff _ _ (TaskSpec.keyed_fromConfig {}) (TaskSpec.keyed_fromConfig { label := some "B" })⟩

/-- A key at the top that reads as a variable is looked up and set among the variables. -/
theorem top_variable_lost :
    let a : TaskSpec := ⟨[]⟩
    let b : TaskSpec := ⟨[("env.X", .string "1")]⟩
    a.changedKeys b = ["env.X"] ∧ b.valueAt "env.X" = none ∧
      ((a.changedKeys b).foldl (fun s key => s.setAt key (b.valueAt key)) a).changedKeys b = ["env.X"] := by
  intro a b
  have hdiff : a.changedKeys b = ["env.X"] := by decide
  have hnone : b.valueAt "env.X" = none := by decide
  have hset : a.setAt "env.X" none = a := rfl
  rw [hdiff, List.foldl_cons, List.foldl_nil, hnone, hset]
  exact ⟨rfl, rfl, hdiff⟩

end Dekit
