import LedgerBench.CommandLine.Command
import LedgerBench.Proofs.Call.Wire
import LedgerBench.Proofs.Json.Grammar
import LedgerBench.Proofs.Json.Settings
/-!
The layers of a configuration.

A run is configured in three layers: the defaults, the settings of a file, and the command's own
values. What is proved:
  1. `Config.ofJson?_record`: an object of settings is read as the defaults with these settings, and
     in the retry settings the same holds once more.
  2. `Config.ofJson?_eq_none`: an object that names a key that is not known, or one twice, is
     refused, and so is one whose retry settings do.
  3. `Config.overlay_reordered`: the order of settings does not matter, on either level.
  4. `Config.loaded_of_settings`: so for every text of settings it is known what a command loads,
     and what its own values change.
-/

namespace LedgerBench

open Json

/-! ## Retry settings -/

inductive RetryConfig.Setting where
  | attempts (n : Nat)
  | initialBackoffMs (n : Nat)
  | maxBackoffMs (n : Nat)
  | backoffFactor (x : Binary64)
  | retryOn (kinds : List ErrorKind)

namespace RetryConfig

/-- The retry settings. -/
def settings : SettingKind Setting RetryConfig where
  key
    | .attempts _ => "attempts"
    | .initialBackoffMs _ => "initial_backoff_ms"
    | .maxBackoffMs _ => "max_backoff_ms"
    | .backoffFactor _ => "backoff_factor"
    | .retryOn _ => "retry_on"
  apply
    | .attempts n, c => { c with attempts := n }
    | .initialBackoffMs n, c => { c with initialBackoffMs := n }
    | .maxBackoffMs n, c => { c with maxBackoffMs := n }
    | .backoffFactor x, c => { c with backoffFactor := x }
    | .retryOn kinds, c => { c with retryOn := kinds }
  value
    | .attempts n, v => asNat? attemptsBound v = some n
    | .initialBackoffMs n, v => asNat? Progress.countBound v = some n
    | .maxBackoffMs n, v => asNat? Progress.countBound v = some n
    | .backoffFactor x, v => asBinary64? v = some x
    | .retryOn kinds, v => asList? ErrorKind.ofJson? v = some kinds

theorem key_mem_keys (s : Setting) : settings.key s ∈ keys := by
  cases s <;> simp [settings, keys]

theorem apply_comm (s t : Setting) (c : RetryConfig) (h : settings.key s ≠ settings.key t) :
    settings.apply s (settings.apply t c) = settings.apply t (settings.apply s c) := by
  cases s <;> cases t <;> first | rfl | exact absurd rfl h

/-- The field that a setting is for. -/
def Setting.field : Setting → SettingKind.Field RetryConfig
  | .attempts _ => { get := (·.attempts), item := asNat? attemptsBound }
  | .initialBackoffMs _ => { get := (·.initialBackoffMs), item := asNat? Progress.countBound }
  | .maxBackoffMs _ => { get := (·.maxBackoffMs), item := asNat? Progress.countBound }
  | .backoffFactor _ => { get := (·.backoffFactor), item := asBinary64? }
  | .retryOn _ => { get := (·.retryOn), item := asList? ErrorKind.ofJson? }

/-- The settings under the key of a setting set its field, and no others do. -/
theorem sets_field (s : Setting) : settings.Sets (settings.key s) s.field where
  set t v c hkey hvalue := by
    cases s <;> cases t <;> first | exact hvalue | simp [settings] at hkey
  keep t c hkey := by
    cases s <;> cases t <;> first | rfl | exact absurd rfl hkey

/-- What a setting says can be written: numbers fit their width, and the factor is one that a
numeral denotes. -/
def Setting.Fits : Setting → Prop
  | .attempts n => n < attemptsBound
  | .initialBackoffMs n => n < Progress.countBound
  | .maxBackoffMs n => n < Progress.countBound
  | .backoffFactor x => ∃ n : Number, n.WellFormed ∧ n.toBinary64? = some x
  | .retryOn _ => True

theorem Setting.Fits.exists_value {s : Setting} (h : s.Fits) :
    ∃ v, v.WellFormed ∧ settings.value s v := by
  cases s with
  | attempts n => exact ⟨_, wellFormed_ofNat n, asNat?_ofNat h⟩
  | initialBackoffMs n => exact ⟨_, wellFormed_ofNat n, asNat?_ofNat h⟩
  | maxBackoffMs n => exact ⟨_, wellFormed_ofNat n, asNat?_ofNat h⟩
  | backoffFactor x =>
    obtain ⟨n, hn, hx⟩ := h
    exact ⟨.number n, .number hn, hx⟩
  | retryOn kinds =>
    have hwell : ∀ kind : ErrorKind, kind.toJson.WellFormed := fun kind => wellFormed_text kind.text
    exact ⟨_, wellFormed_list fun kind _ => hwell kind, asList?_list fun kind _ =>
      kind.ofJson?_toJson⟩

variable {inner : List Setting} {members : List (String × Json)}

/-- An object of retry settings is read as the defaults with these settings. -/
theorem ofJson?_record (h : settings.Written inner members) :
    ofJson? (record members) = some (settings.overlay {} inner) := by
  have hfields :
      fields? keys true (record members) = some (keys.map fun name => members.lookup name) :=
    fields?_record keys true (h.mem_keys key_mem_keys) h.nodup_names
  rw [ofJson?, hfields]
  -- Each field is read as the setting for it says, whatever that one says itself.
  have hread := fun s => (sets_field s).withDefault?_lookup h {}
  have hattempts := hread (.attempts 0)
  have hinitial := hread (.initialBackoffMs 0)
  have hmax := hread (.maxBackoffMs 0)
  have hfactor := hread (.backoffFactor Binary64.zero)
  have hretryOn := hread (.retryOn [])
  simp only [settings, Setting.field] at hattempts hinitial hmax hfactor hretryOn
  simp only [keys, List.map_cons, List.map_nil]
  rw [hattempts, hinitial, hmax, hfactor, hretryOn]
  rfl

theorem ofJson?_eq_none {members : List (Option String × Json)} (h : Misnamed keys members) :
    ofJson? (.object members) = none := by
  rw [ofJson?, h.fields?_eq_none]

end RetryConfig

/-! ## The settings of a run -/

inductive Config.Setting where
  | concurrency (n : Nat)
  | queueCapacity (n : Nat)
  | iterations (n : Nat)
  | reportIntervalSecs (n : Nat)
  | submitIntervalMs (n : Nat)
  | retry (inner : List RetryConfig.Setting)
  | targets (targets : List Target)

namespace Config

/-- The settings of a run. Retry settings begin with their own defaults. -/
def settings : SettingKind Setting Config where
  key
    | .concurrency _ => "concurrency"
    | .queueCapacity _ => "queue_capacity"
    | .iterations _ => "iterations"
    | .reportIntervalSecs _ => "report_interval_secs"
    | .submitIntervalMs _ => "submit_interval_ms"
    | .retry _ => "retry"
    | .targets _ => "targets"
  apply
    | .concurrency n, c => { c with concurrency := n }
    | .queueCapacity n, c => { c with queueCapacity := n }
    | .iterations n, c => { c with iterations := n }
    | .reportIntervalSecs n, c => { c with reportIntervalSecs := n }
    | .submitIntervalMs n, c => { c with submitIntervalMs := n }
    | .retry inner, c => { c with retry := RetryConfig.settings.overlay {} inner }
    | .targets targets, c => { c with targets }
  value
    | .concurrency n, v => asNat? Progress.countBound v = some n
    | .queueCapacity n, v => asNat? Progress.countBound v = some n
    | .iterations n, v => asNat? Progress.countBound v = some n
    | .reportIntervalSecs n, v => asNat? Progress.countBound v = some n
    | .submitIntervalMs n, v => asNat? Progress.countBound v = some n
    | .retry inner, v => ∃ members, v = record members ∧ RetryConfig.settings.Written inner members
    | .targets targets, v => asList? Target.ofJson? v = some targets

theorem key_mem_keys (s : Setting) : settings.key s ∈ keys := by
  cases s <;> simp [settings, keys]

theorem apply_comm (s t : Setting) (c : Config) (h : settings.key s ≠ settings.key t) :
    settings.apply s (settings.apply t c) = settings.apply t (settings.apply s c) := by
  cases s <;> cases t <;> first | rfl | exact absurd rfl h

/-- The field that a setting is for. -/
def Setting.field : Setting → SettingKind.Field Config
  | .concurrency _ => { get := (·.concurrency), item := asNat? Progress.countBound }
  | .queueCapacity _ => { get := (·.queueCapacity), item := asNat? Progress.countBound }
  | .iterations _ => { get := (·.iterations), item := asNat? Progress.countBound }
  | .reportIntervalSecs _ => { get := (·.reportIntervalSecs), item := asNat? Progress.countBound }
  | .submitIntervalMs _ => { get := (·.submitIntervalMs), item := asNat? Progress.countBound }
  | .retry _ => { get := (·.retry), item := RetryConfig.ofJson? }
  | .targets _ => { get := (·.targets), item := asList? Target.ofJson? }

/-- The settings under the key of a setting set its field, and no others do. -/
theorem sets_field (s : Setting) : settings.Sets (settings.key s) s.field where
  set t v c hkey hvalue := by
    cases s <;> cases t
    case retry.retry =>
      obtain ⟨members, rfl, hwritten⟩ := hvalue
      exact RetryConfig.ofJson?_record hwritten
    all_goals first | exact hvalue | simp [settings] at hkey
  keep t c hkey := by
    cases s <;> cases t <;> first | rfl | exact absurd rfl hkey

/-- What a setting says can be written. -/
def Setting.Fits : Setting → Prop
  | .concurrency n | .queueCapacity n | .iterations n | .reportIntervalSecs n
  | .submitIntervalMs n => n < Progress.countBound
  | .retry inner => (inner.map RetryConfig.settings.key).Nodup ∧ ∀ s ∈ inner, s.Fits
  | .targets _ => True

theorem Setting.Fits.exists_value {s : Setting} (h : s.Fits) :
    ∃ v, v.WellFormed ∧ settings.value s v := by
  cases s with
  | concurrency n => exact ⟨_, wellFormed_ofNat n, asNat?_ofNat h⟩
  | queueCapacity n => exact ⟨_, wellFormed_ofNat n, asNat?_ofNat h⟩
  | iterations n => exact ⟨_, wellFormed_ofNat n, asNat?_ofNat h⟩
  | reportIntervalSecs n => exact ⟨_, wellFormed_ofNat n, asNat?_ofNat h⟩
  | submitIntervalMs n => exact ⟨_, wellFormed_ofNat n, asNat?_ofNat h⟩
  | retry inner =>
    obtain ⟨members, hwritten, hwell⟩ :=
      SettingKind.exists_written h.1 fun s hs => (h.2 s hs).exists_value
    exact ⟨record members, hwell, members, rfl, hwritten⟩
  | targets targets =>
    exact ⟨_, wellFormed_list fun t _ => t.wellFormed_toJson,
      asList?_list fun t _ => t.ofJson?_toJson⟩

variable {given : List Setting} {members : List (String × Json)}

/-- An object of settings is read as the defaults with these settings. -/
theorem ofJson?_record (h : settings.Written given members) :
    ofJson? (record members) = some (settings.overlay {} given) := by
  have hfields :
      fields? keys true (record members) = some (keys.map fun name => members.lookup name) :=
    fields?_record keys true (h.mem_keys key_mem_keys) h.nodup_names
  rw [ofJson?, hfields]
  have hread := fun s => (sets_field s).withDefault?_lookup h {}
  have hconcurrency := hread (.concurrency 0)
  have hcapacity := hread (.queueCapacity 0)
  have hiterations := hread (.iterations 0)
  have hreport := hread (.reportIntervalSecs 0)
  have hsubmit := hread (.submitIntervalMs 0)
  have hretry := hread (.retry [])
  have htargets := hread (.targets [])
  simp only [settings, Setting.field]
    at hconcurrency hcapacity hiterations hreport hsubmit hretry htargets
  simp only [keys, List.map_cons, List.map_nil]
  rw [hconcurrency, hcapacity, hiterations, hreport, hsubmit, hretry, htargets]
  rfl

/-- An object that names a key that is not known, or one twice, is refused, and so is one whose
retry settings do. -/
theorem ofJson?_eq_none {members : List (Option String × Json)}
    (h : Misnamed keys members ∨ ∃ inner, (some "retry", .object inner) ∈ members ∧
      Misnamed RetryConfig.keys inner) :
    ofJson? (.object members) = none := by
  rcases h with hmisnamed | ⟨inner, hretry, hmisnamed⟩
  · rw [ofJson?, hmisnamed.fields?_eq_none]
  · cases hread : ofJson? (.object members) with
    | none => rfl
    | some c =>
      unfold ofJson? at hread
      split at hread
      · rename_i retry _ hfields
        obtain ⟨hform, hvalues⟩ := fields?_object.mp hfields
        have hfound : member? "retry" members = some (.object inner) :=
          (member?_eq_some_iff (hform.once _ (by simp [keys]))).mpr hretry
        obtain ⟨-, -, -, -, -, hmember, -⟩ := by
          simpa only [keys, List.map_cons, List.cons.injEq] using hvalues
        simp only [hmember, hfound, withDefault?, RetryConfig.ofJson?_eq_none hmisnamed,
          Option.bind_eq_bind, Option.bind_none, Option.bind_eq_some_iff, reduceCtorEq, and_false,
          exists_false] at hread
      · cases hread

/-- The same setting, where retry settings may stand in another order. -/
inductive Setting.Reordered : Setting → Setting → Prop where
  | same (s : Setting) : Reordered s s
  | retry {inner inner' : List RetryConfig.Setting} (h : inner.Perm inner') :
    Reordered (.retry inner) (.retry inner')

/-- The same settings in another order, and the retry settings among them in another. -/
def Reordered (given given' : List Setting) : Prop :=
  ∃ mid, given.Perm mid ∧ List.Forall₂ Setting.Reordered mid given'

theorem Setting.Reordered.apply_eq {s s' : Setting} (h : s.Reordered s') {v : Json}
    (hv : settings.value s v) (c : Config) :
    settings.apply s' c = settings.apply s c := by
  cases h with
  | same => rfl
  | retry hperm =>
    obtain ⟨_, -, hwritten⟩ := hv
    simp only [settings, RetryConfig.settings.overlay_perm RetryConfig.apply_comm hperm
      hwritten.nodup_keys]

/-- The order of settings does not matter. -/
theorem overlay_reordered {given' : List Setting} (hwritten : settings.Written given members)
    (h : Reordered given given') (base : Config) :
    settings.overlay base given' = settings.overlay base given := by
  obtain ⟨mid, hperm, hsame⟩ := h
  have hvalues : ∀ s ∈ mid, ∃ v, settings.value s v :=
    fun s hs => hwritten.exists_value s (hperm.mem_iff.mpr hs)
  rw [settings.overlay_perm apply_comm hperm hwritten.nodup_keys]
  clear hperm hwritten
  induction hsame generalizing base with
  | nil => rfl
  | cons hs _ ih =>
    obtain ⟨⟨v, hv⟩, hrest⟩ := List.forall_mem_cons.mp hvalues
    rw [SettingKind.overlay_cons, SettingKind.overlay_cons, hs.apply_eq hv, ih _ hrest]

end Config

/-! ## Loading -/

namespace Command

/-- A configuration is a given one but for the values that a command gives itself. A queue is made
larger where it would not hold all groups. -/
structure Overrides (c : Command) (base config : Config) : Prop where
  concurrency : config.concurrency = c.concurrency.getD base.concurrency
  iterations : config.iterations = c.iterations.getD base.iterations
  queueCapacity : config.queueCapacity =
    match c.iterations with
    | none => base.queueCapacity
    | some n => if base.queueCapacity < n then n else base.queueCapacity
  reportIntervalSecs : config.reportIntervalSecs = base.reportIntervalSecs
  submitIntervalMs : config.submitIntervalMs = base.submitIntervalMs
  retry : config.retry = base.retry
  targets : config.targets = base.targets

theorem overrides_override (c : Command) (base : Config) : c.Overrides base (c.override base) := by
  unfold override
  cases hiterations : c.iterations with
  | none => constructor <;> simp [hiterations]
  | some n =>
    have hraised : max base.queueCapacity n = if base.queueCapacity < n then n
        else base.queueCapacity := by
      split <;> omega
    constructor <;> simp [hiterations, hraised]

theorem loadConfig_of_read {files : FileReader} {c : Command} {path : String} {text : List Char}
    (hpath : c.config = some path) (htext : files path = .ok text) {base : Config}
    (hbase : Config.ofText text = .ok base) : c.loadConfig files = .ok (c.override base) := by
  simp only [loadConfig, hpath, Config.ofFile, htext, hbase]

theorem loadConfig_of_refused {files : FileReader} {c : Command} {path : String} {text : List Char}
    (hpath : c.config = some path) (htext : files path = .ok text) {e : ConfigError}
    (he : Config.ofText text = .error e) : ∃ failure, c.loadConfig files = .error failure := by
  simp only [loadConfig, hpath, Config.ofFile, htext, he, Except.error.injEq, exists_eq']

end Command

namespace Config

theorem read?_of_scan {text : List Char} {v : Json} (h : Token.scan text = some v.tokens) :
    Config.read? text = ofJson? v := by
  rw [Config.read?, read?_eq_some_iff.mpr h, Option.bind_some]

/-- Settings with different keys can be written. However they are ordered and spaced, they are read
as the defaults with these settings, where a key that is not known or stands twice, on the outside
or among the retry settings, has the text refused. A command loads what is read, or the defaults,
and changes just what it gives itself. -/
theorem loaded_of_settings :
    (∀ given, (given.map settings.key).Nodup → (∀ s ∈ given, s.Fits) →
      ∃ members, settings.Written given members ∧
        Spells (record members).compact.toList (record members).tokens) ∧
    (∀ given members text, settings.Written given members →
      Token.scan text = some (record members).tokens →
      ofText text = .ok (settings.overlay {} given)) ∧
    (∀ given given' members members' text text', settings.Written given members →
      settings.Written given' members' → Reordered given given' →
      Token.scan text = some (record members).tokens →
        Token.scan text' = some (record members').tokens → ofText text = ofText text') ∧
    (∀ members text, Token.scan text = some (Json.object members).tokens →
      (Misnamed keys members ∨ ∃ inner, (some "retry", .object inner) ∈ members ∧
          Misnamed RetryConfig.keys inner) →
      ofText text = .error .malformed) ∧
    (∀ tokens text, Spells text tokens → Token.scan text = some tokens) ∧
    ∀ (c : Command) files,
      (c.config = none → ∃ config, c.loadConfig files = .ok config ∧ c.Overrides {} config) ∧
      ∀ path text, c.config = some path → files path = .ok text →
        (∀ base, ofText text = .ok base → ∃ config, c.loadConfig files = .ok config ∧
            c.Overrides base config) ∧
        ∀ e, ofText text = .error e → ∃ failure, c.loadConfig files = .error failure := by
  have hread : ∀ given members text, settings.Written given members →
      Token.scan text = some (record members).tokens →
      ofText text = .ok (settings.overlay {} given) := by
    intro given members text hwritten hscan
    simp only [ofText, read?_of_scan hscan, ofJson?_record hwritten]
  refine ⟨fun given hdistinct hfits => ?_, hread, ?_, ?_, fun _ _ => Token.scan_of_spells,
    fun c files =>
      ⟨fun hnone => ?_, fun path text hpath htext => ⟨fun base hbase => ?_, fun e he => ?_⟩⟩⟩
  · obtain ⟨members, hwritten, hwell⟩ :=
      SettingKind.exists_written hdistinct fun s hs => (hfits s hs).exists_value
    exact ⟨members, hwritten, spells_compact hwell⟩
  · intro given given' members members' text text' hwritten hwritten' hreordered hscan hscan'
    rw [hread given members text hwritten hscan, hread given' members' text' hwritten' hscan',
      overlay_reordered hwritten hreordered]
  · intro members text hscan hmisnamed
    simp only [ofText, read?_of_scan hscan, ofJson?_eq_none hmisnamed]
  · exact ⟨c.override {}, by rw [Command.loadConfig, hnone], c.overrides_override {}⟩
  · exact ⟨c.override base, Command.loadConfig_of_read hpath htext hbase, c.overrides_override base⟩
  · exact Command.loadConfig_of_refused hpath htext he

/-! ### A file with three settings, and one that repeats a key -/

/-- Three settings. The retry settings stand first, and in another order than they are kept. -/
def partialText : String :=
  "\x7b\"retry\":\x7b \"retry_on\" : [\"transport\"],\"attempts\":5\x7d,\r\n\t\"concurrency\" : 4, \"targets\":[[\"peer0\"]]\x7d"

def partialSettings : List Setting :=
  [.retry [.retryOn [.transport], .attempts 5], .concurrency 4, .targets [{ name := "peer0" }]]

def partialConfig : Config where
  concurrency := 4
  retry := { attempts := 5, retryOn := [.transport] }
  targets := [{ name := "peer0" }]

def repeatingText : String := "\x7b\"retry\":\x7b\"attempts\":1,\"attempts\":1\x7d\x7d"

/-- A command that makes more groups than the queue of a file has slots for. -/
def hundred : Command where
  mode := .query
  batch := .inline ""
  config := some "run.json"
  iterations := some 100

theorem loaded_of_settings_partial :
    ofText partialText.toList = .ok partialConfig ∧ ofText repeatingText.toList =
      .error .malformed ∧
    hundred.loadConfig (fun _ => .ok partialText.toList) =
      .ok { partialConfig with iterations := 100, queueCapacity := 100 } := by
  obtain ⟨-, hread, -, hrefused, -, hload⟩ := loaded_of_settings
  have hinner : RetryConfig.settings.Written [.retryOn [.transport], .attempts 5]
      [("retry_on", .array [text "transport"]), ("attempts", Json.ofNat 5)] := by
    have hattempts : asNat? RetryConfig.attemptsBound (Json.ofNat 5) = some 5 :=
      asNat?_ofNat (by decide)
    refine .cons (s := RetryConfig.Setting.retryOn [.transport])
      rfl ?_ (.cons (s := RetryConfig.Setting.attempts 5) hattempts nofun .nil)
    simp [RetryConfig.settings]
  have hwritten : settings.Written partialSettings
      [("retry", record [("retry_on", .array [text "transport"]), ("attempts", Json.ofNat 5)]),
        ("concurrency", Json.ofNat 4),
        ("targets", .array [.array [text "peer0"]])] := by
    have hconcurrency : asNat? Progress.countBound (Json.ofNat 4) = some 4 :=
      asNat?_ofNat (by decide)
    refine .cons (s := Setting.retry _) ⟨_, rfl,
      hinner⟩ ?_ (.cons (s := Setting.concurrency 4) hconcurrency ?_
      (.cons (s := Setting.targets [{ name := "peer0" }]) rfl nofun .nil))
    · simp [settings]
    · simp [settings]
  have hoverlay : settings.overlay {} partialSettings = partialConfig := by
    simp only [SettingKind.overlay, settings, RetryConfig.settings, partialSettings, partialConfig,
      List.foldl_cons, List.foldl_nil]
  have hpartial : ofText partialText.toList = .ok partialConfig := by
    rw [← hoverlay]
    exact hread _ _ _ hwritten rfl
  refine ⟨hpartial,
    hrefused [(some "retry", .object [(some "attempts", Json.ofNat 1),
    (some "attempts", Json.ofNat 1)])] _ rfl ?_, ?_⟩
  · exact .inr ⟨_, List.mem_singleton_self _, .inr ⟨"attempts", by decide⟩⟩
  · obtain ⟨config, hconfig, hoverrides⟩ :=
      ((hload hundred (fun _ => .ok partialText.toList)).2 "run.json" _ rfl rfl).1 _ hpartial
    obtain ⟨concurrency, queueCapacity, iterations, reportIntervalSecs, submitIntervalMs, retry,
      targets⟩ := config
    obtain ⟨rfl, rfl, rfl, rfl, rfl, rfl, rfl⟩ := hoverrides
    exact hconfig

end Config

end LedgerBench
