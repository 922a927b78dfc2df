import LeastModel.Proofs.ConfigKeys
import LeastModel.Proofs.GivenFlags
import LeastModel.Proofs.WorldRuns

/-!
# What decides about a setting

The last value of a setting's flag prevails over the configuration file, and the
file over the default (`World.settings_of_task`). The last decision that is taken
over holds (`foldl_eq_getLast?`), so only the last value of each flag counts, and
not in which order different flags are given (`taskOf_congr`).
-/

namespace LeastModel.Command

/-- What holds is what the flag says; without the flag what the file says; without
that the default. `read` tells what a value of the flag says. -/
def Prevails {α : Type} (read : Bytes → Option α) (flag : Option Bytes) (key : Option α)
    (default a : α) : Prop :=
  match flag with
  | some value => read value = some a
  | none => a = key.getD default

/-- Every setting is as its flag, the file or the default says. -/
structure Precedence (given : List (Bytes × Bytes)) (keys : Keys) (s : Settings) : Prop where
  format : Prevails some (lastGiven given "format") keys.format "text" s.format
  verbose : Prevails truth? (lastGiven given "verbose") keys.verbose false s.verbose
  store : Prevails some (lastGiven given "store") keys.store [] s.store
  graph : Prevails truth? (lastGiven given "graph") keys.graph false s.graph
  maxPasses : Prevails integer? (lastGiven given "max-passes") keys.maxPasses 0 s.options.maxPasses
  /-- The flag says whether to leave the rules unchecked. -/
  validateRules : Prevails (fun value => (truth? value).map not) (lastGiven given "no-validate")
    keys.validateRules true s.options.validateRules
  traceJoins : Prevails truth? (lastGiven given "trace-joins") keys.traceJoins false
    s.options.traceJoins

theorem Prevails.unique {α : Type} {read : Bytes → Option α} {flag : Option Bytes}
    {key : Option α} {default a b : α} (ha : Prevails read flag key default a)
    (hb : Prevails read flag key default b) : a = b := by
  cases flag with
  | none => exact Eq.trans ha (Eq.symm hb)
  | some value => exact Option.some.inj (Eq.trans (Eq.symm ha) hb)

theorem Precedence.unique {given given' : List (Bytes × Bytes)} {keys : Keys} {s s' : Settings}
    (hs : Precedence given keys s) (hs' : Precedence given' keys s')
    (hsame : ∀ name, lastGiven given name = lastGiven given' name) : s = s' := by
  obtain ⟨format, verbose, store, graph, maxPasses, validateRules, traceJoins⟩ := s
  obtain ⟨format', verbose', store', graph', maxPasses', validateRules', traceJoins'⟩ := s'
  obtain ⟨h₁, h₂, h₃, h₄, h₅, h₆, h₇⟩ := hs
  obtain ⟨h₁', h₂', h₃', h₄', h₅', h₆', h₇'⟩ := hs'
  simp only [← hsame] at h₁' h₂' h₃' h₄' h₅' h₆' h₇'
  simp only [Settings.mk.injEq, Options.mk.injEq]
  exact ⟨h₁.unique h₁', h₂.unique h₂', h₃.unique h₃', h₄.unique h₄', h₅.unique h₅', h₆.unique h₆',
    h₇.unique h₇'⟩

/-! ## The last decision holds -/

/-- If each step sets a value to what it picks, the value is what was picked last. -/
theorem foldl_eq_getLast? {σ δ α : Type} (get : σ → α) {step : σ → δ → σ} {pick : δ → Option α}
    (hstep : ∀ s d, get (step s d) = (pick d).getD (get s)) (s : σ) (ds : List δ) :
    get (ds.foldl step s) = ((ds.filterMap pick).getLast?).getD (get s) := by
  induction ds generalizing s with
  | nil => rfl
  | cons d ds ih =>
      rw [List.foldl_cons, ih, hstep, List.filterMap_cons]
      cases pick d with
      | none => rfl
      | some a => rw [List.getLast?_cons]; rfl

/-- The setting among the choices. -/
def setting? : Choice → Option Setting
  | .setting s => some s
  | _ => none

/-- What flags decide about one setting prevails over what has been decided before. -/
theorem prevails_of_decides {α : Type} (get : Settings → α) {pick : Setting → Option α}
    {flag : Bytes} {read : Bytes → Option α}
    (htake : ∀ s d, get (s.take d) = (pick d).getD (get s))
    (hreads : Reads flag read fun choice => (setting? choice).bind pick)
    {given : List (Bytes × Bytes)} {choices : List Choice}
    (h : DecideInTurn given choices)
    (decided : List Setting) :
    Prevails read (lastGiven given flag) (decided.filterMap pick).getLast? (get {})
      (get (Settings.takeAll (Settings.takeAll {} decided) (settingsAmong choices))) := by
  obtain ⟨hlast, hread⟩ := getLast?_filterMap_of_decides hreads h
  have hamong : settingsAmong choices = choices.filterMap setting? := rfl
  rw [Settings.takeAll, foldl_eq_getLast? get htake, hamong, List.filterMap_filterMap, hlast,
    Settings.takeAll, foldl_eq_getLast? get htake]
  cases hflag : lastGiven given flag with
  | none => rfl
  | some value =>
      obtain ⟨a, ha⟩ := Option.isSome_iff_exists.mp (hread value hflag)
      rw [Option.bind_some, ha]
      exact ha

/-- What flags decide prevails over what a file has decided, setting by setting. -/
theorem precedence_of_decides {given : List (Bytes × Bytes)} {choices : List Choice}
    (h : DecideInTurn given choices)
    (decided : List Setting) :
    Precedence given (Keys.ofDecisions decided)
      (Settings.takeAll (Settings.takeAll {} decided) (settingsAmong choices)) := by
  refine ⟨prevails_of_decides (·.format) ?_ ?_ h decided,
    prevails_of_decides (·.verbose) ?_ ?_ h decided,
    prevails_of_decides (·.store) ?_ ?_ h decided,
    prevails_of_decides (·.graph) ?_ ?_ h decided,
    prevails_of_decides (·.options.maxPasses) ?_ ?_ h decided,
    prevails_of_decides (·.options.validateRules) ?_ ?_ h decided,
    prevails_of_decides (·.options.traceJoins) ?_ ?_ h decided⟩
  -- For each setting: how a decision is taken over, and which flag makes it.
  all_goals first
    | rintro s (_ | _ | _ | _ | _ | _ | _) <;> rfl
    | intro name value choice hdecides
      cases hdecides <;> simp +decide [setting?, *]

/-- What the last flag of a name decides, if not about a setting. -/
theorem lastPicked_of_decides {pick : Choice → Option Bool} {flag : Bytes}
    (hreads : Reads flag truth? pick) {given : List (Bytes × Bytes)} {choices : List Choice}
    (h : DecideInTurn given choices) :
    lastPicked pick choices = ((lastGiven given flag).bind truth?).getD false := by
  rw [lastPicked, (getLast?_filterMap_of_decides hreads h).1]

/-- The configuration file that a choice names. -/
def path? : Choice → Option Bytes
  | .config path => some path
  | _ => none

theorem configPath_of_decides {given : List (Bytes × Bytes)} {choices : List Choice}
    (h : DecideInTurn given choices) :
    configPath choices = (lastGiven given "config").getD [] := by
  have hreads : Reads "config" some path? := by
    intro name value choice hdecides
    cases hdecides <;> simp +decide [path?]
  rw [← Option.bind_fun_some (lastGiven given "config"),
    ← (getLast?_filterMap_of_decides hreads h).1]
  refine foldl_eq_getLast? id (fun path choice => ?_) [] choices
  cases choice <;> rfl

theorem settings_of_taskOf {base : Settings} {choices : List Choice} {files : List Bytes} {t : Task}
    (h : Task.of base choices files = .ok t) :
    t.settings = base.takeAll (settingsAmong choices) := by
  rw [Task.of] at h
  dsimp only at h
  split at h
  · cases h
  · split at h
    · cases h
    · split at h
      · cases h
      · split at h
        · cases h
        · cases h
          rfl

/-- The task depends on the flags by their last values alone. -/
theorem taskOf_congr {given given' : List (Bytes × Bytes)} {choices choices' : List Choice}
    (h : DecideInTurn given choices)
    (h' : DecideInTurn given' choices')
    (hsame : ∀ name, lastGiven given name = lastGiven given' name) (decided : List Setting)
    (files : List Bytes) :
    Task.of (Settings.takeAll {} decided) choices' files =
      Task.of (Settings.takeAll {} decided) choices files := by
  have hsettings :=
    (precedence_of_decides h decided).unique (precedence_of_decides h' decided) hsame
  have hpicked (flag : Bytes) {pick : Choice → Option Bool} (hreads : Reads flag truth? pick) :
      lastPicked pick choices' = lastPicked pick choices := by
    rw [lastPicked_of_decides hreads h, lastPicked_of_decides hreads h', hsame]
  rw [Task.of, Task.of, hsettings]
  rw [hpicked "dump", hpicked "list", hpicked "load"]
  all_goals
    intro name value choice hdecides
    cases hdecides <;> simp +decide [*]

/-- The keys that are read from a file are what the file says, in the sense of `Says`. -/
def Libraries.ReadsAs (libraries : Libraries) (Says : Bytes → Keys → Prop) : Prop :=
  ∀ file decided, libraries.readConfig file = .ok decided → Says file (Keys.ofDecisions decided)

theorem Libraries.standard_readsAs : Libraries.standard.ReadsAs Config.Says :=
  fun _ _ => Config.says_of_read

namespace World

variable {libraries : Libraries}

theorem gives_baseSettings {w w' : World} {path : Bytes} {base : Settings} :
    Gives ((host libraries).baseSettings path) w base w' ↔
      w = w' ∧ ((path = [] ∧ base = {}) ∨
        (path ≠ [] ∧ ∃ file decided, w.readFile path = .ok file ∧
          libraries.readConfig file = .ok decided ∧ base = Settings.takeAll {} decided)) := by
  rw [Host.baseSettings]
  cases path with
  | nil =>
      constructor
      · intro h
        obtain ⟨rfl, rfl⟩ := gives_pure.mp h
        exact ⟨rfl, .inl ⟨rfl, rfl⟩⟩
      · rintro ⟨rfl, ⟨-, rfl⟩ | ⟨hpath, -⟩⟩
        · exact gives_pure.mpr ⟨rfl, rfl⟩
        · exact absurd rfl hpath
  | cons b path =>
      have hread : ((host libraries).readFile (b :: path)).run w =
          (w.readFile (b :: path), w) := rfl
      simp only [List.isEmpty_cons, Bool.false_eq_true, if_false]
      rw [gives_bind]
      constructor
      · rintro ⟨file, mid, hfile, h⟩
        rw [gives_orElseFail, hread, Prod.mk.injEq] at hfile
        obtain ⟨hfile, rfl⟩ := hfile
        split at h
        · rename_i decided hdecided
          obtain ⟨rfl, rfl⟩ := gives_pure.mp h
          exact ⟨rfl, .inr ⟨nofun, file, decided, hfile, hdecided, rfl⟩⟩
        · exact absurd h not_gives_throw
      · rintro ⟨rfl, ⟨hpath, -⟩ | ⟨-, file, decided, hfile, hdecided, rfl⟩⟩
        · cases hpath
        · refine ⟨file, w, ?_, ?_⟩
          · rw [gives_orElseFail, hread, hfile]
          · rw [show (host libraries).libraries.readConfig file = .ok decided from hdecided]
            exact gives_pure.mpr ⟨rfl, rfl⟩

theorem gives_task {w w' : World} {arguments : List Bytes} {t : Task} :
    Gives ((host libraries).task arguments) w t w' ↔
      ∃ choices files base, readFlags arguments = .ok (choices, files) ∧
        Gives ((host libraries).baseSettings (configPath choices)) w base w' ∧
        Task.of base choices files = .ok t := by
  rw [Host.task]
  cases hflags : readFlags arguments with
  | error fault =>
      refine iff_of_false (fun h => ?_) (by rintro ⟨_, _, _, h, -⟩; cases h)
      obtain ⟨_, _, -, h⟩ := gives_bind.mp h
      exact not_gives_throw h
  | ok read =>
      obtain ⟨choices, files⟩ := read
      dsimp only
      rw [gives_bind]
      constructor
      · rintro ⟨base, mid, hbase, h⟩
        split at h
        · rename_i task htask
          obtain ⟨rfl, rfl⟩ := gives_pure.mp h
          exact ⟨choices, files, base, rfl, hbase, htask⟩
        · exact absurd h not_gives_throw
      · rintro ⟨choices, files, base, ⟨⟩, hbase, htask⟩
        refine ⟨base, w', hbase, ?_⟩
        rw [htask]
        exact gives_pure.mpr ⟨rfl, rfl⟩

/-- What the configuration file of a path says on each setting; nothing without a file. -/
inductive FileSays (Says : Bytes → Keys → Prop) (w : World) : (path : Bytes) → Keys → Prop
  | unnamed : FileSays Says w [] {}
  | named {path file : Bytes} {keys : Keys} (hpath : path ≠ []) (hfile : w.readFile path = .ok file)
      (hkeys : Says file keys) : FileSays Says w path keys

theorem exists_decided_of_baseSettings {Says : Bytes → Keys → Prop}
    (hreads : libraries.ReadsAs Says) {w w' : World} {path : Bytes} {base : Settings}
    (h : Gives ((host libraries).baseSettings path) w base w') :
    ∃ decided, base = Settings.takeAll {} decided ∧
      FileSays Says w path (Keys.ofDecisions decided) := by
  obtain ⟨-, ⟨rfl, rfl⟩ | ⟨hpath, file, decided, hfile, hdecided, rfl⟩⟩ := gives_baseSettings.mp h
  · exact ⟨[], rfl, .unnamed⟩
  · exact ⟨decided, rfl, .named hpath hfile (hreads file decided hdecided)⟩

/-- A flag that is given decides about its setting by its last value; otherwise the
file does, and without it the default. Arguments that give each flag the same last
value, in whatever order, set the same task. Of the reader of configuration files
it is only known what the keys that it finds mean. -/
theorem settings_of_task {Says : Bytes → Keys → Prop} (hreads : libraries.ReadsAs Says)
    {w w' : World} {arguments : List Bytes} {t : Task}
    (h : Gives ((host libraries).task arguments) w t w') :
    ∃ keys, FileSays Says w ((lastGiven (flagsGiven arguments) "config").getD []) keys ∧
      Precedence (flagsGiven arguments) keys t.settings ∧
      ∃ choices files, readFlags arguments = .ok (choices, files) ∧
        ∀ arguments' choices', readFlags arguments' = .ok (choices', files) →
          (∀ name, lastGiven (flagsGiven arguments) name = lastGiven (flagsGiven arguments') name) →
          Gives ((host libraries).task arguments') w t w' := by
  obtain ⟨choices, files, base, hflags, hbase, htask⟩ := gives_task.mp h
  have hdecides := decides_of_readFlags hflags
  obtain ⟨decided, rfl, hfile⟩ := exists_decided_of_baseSettings hreads hbase
  rw [configPath_of_decides hdecides] at hbase hfile
  refine ⟨Keys.ofDecisions decided, hfile, ?_, choices, files, hflags, ?_⟩
  · rw [settings_of_taskOf htask]
    exact precedence_of_decides hdecides decided
  · intro arguments' choices' hflags' hsame
    have hdecides' := decides_of_readFlags hflags'
    refine gives_task.mpr ⟨choices', files, Settings.takeAll {} decided, hflags', ?_, ?_⟩
    · rwa [configPath_of_decides hdecides', ← hsame]
    · rw [taskOf_congr hdecides hdecides' hsame, htask]

/-- A world with a file that decides about three settings and leaves one open. -/
def configured : World where
  files := [({ names := ["c.yaml"] },
    "format: table\nverbose: true\ngraph: ~\nmax_passes: 3\nvalidate_rules: no\n")]

/-- Flags on both sides of the file, with the default as a value and one given twice. -/
def overriding : List Bytes :=
  ["-max-passes", "7", "-no-validate=false", "--config=c.yaml", "-verbose=F", "-max-passes=0", "p"]

/-- The same flags, with the file last. -/
def reordered : List Bytes :=
  ["--verbose=F", "-max-passes=7", "--max-passes", "0", "-no-validate=false", "-config", "c.yaml",
    "p"]

/-- The task that is set: the style of the file, everything else as by default. -/
def tableTask : Task where
  settings := { format := "table" }
  style := .table
  file := "p"
  dump := false
  list := false
  load := false

theorem settings_of_task_reordered :
    Libraries.standard.ReadsAs Config.Says ∧
      Gives ((host .standard).task overriding) configured tableTask configured ∧
      (∃ keys, FileSays Config.Says configured "c.yaml" keys ∧
        Precedence (flagsGiven overriding) keys tableTask.settings) ∧
      Gives ((host .standard).task reordered) configured tableTask configured := by
  have hflags : readFlags overriding =
      .ok ([.setting (.maxPasses 7), .setting (.validateRules true), .config "c.yaml",
        .setting (.verbose false), .setting (.maxPasses 0)], ["p"]) := by
    decide +kernel
  have htask : Gives ((host .standard).task overriding) configured tableTask configured :=
    gives_task.mpr ⟨_, _, _, hflags, gives_baseSettings.mpr ⟨rfl, .inr ⟨by decide +kernel, _,
      [.format "table", .verbose true, .maxPasses 3, .validateRules false],
      rfl, by decide +kernel, rfl⟩⟩, by decide +kernel⟩
  obtain ⟨keys, hfile, hprecedence, _, _, hread, horder⟩ :=
    settings_of_task Libraries.standard_readsAs htask
  cases hflags.symm.trans hread
  have hgiven : flagsGiven overriding = ([("max-passes", "7"), ("no-validate", "false"),
      ("config", "c.yaml"), ("verbose", "F"), ("max-passes", "0")] : List (Bytes × Bytes)) := by
    decide +kernel
  have hgiven' : flagsGiven reordered = ([("verbose", "F"), ("max-passes", "7"),
      ("max-passes", "0"), ("no-validate", "false"), ("config", "c.yaml")] :
        List (Bytes × Bytes)) := by
    decide +kernel
  have hsame : ∀ name,
      lastGiven (flagsGiven overriding) name = lastGiven (flagsGiven reordered) name := by
    intro name
    rw [hgiven, hgiven']
    by_cases hpasses : "max-passes" = name
    · subst hpasses; decide +kernel
    by_cases hvalidate : "no-validate" = name
    · subst hvalidate; decide +kernel
    by_cases hconfig : "config" = name
    · subst hconfig; decide +kernel
    by_cases hverbose : "verbose" = name
    · subst hverbose; decide +kernel
    simp [lastGiven_cons, hpasses, hvalidate, hconfig, hverbose]
  have hpath : (lastGiven (flagsGiven overriding) "config").getD [] = "c.yaml" := by
    decide +kernel
  rw [hpath] at hfile
  exact ⟨Libraries.standard_readsAs, htask, ⟨keys, hfile, hprecedence⟩, horder reordered
    [.setting (.verbose false), .setting (.maxPasses 7), .setting (.maxPasses 0),
      .setting (.validateRules true), .config "c.yaml"] (by decide +kernel) hsame⟩

end World

end LeastModel.Command
