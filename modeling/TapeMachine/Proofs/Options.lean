import Mathlib.Data.List.Perm.Basic
import TapeMachine.Proofs.Layers
/-!
# What a command line stands for

The options of a command line depend on its flags name by name: on the values given to each flag, in
order. Settings take the last of them, then the settings file, then the standard value, and flags of
different names may be exchanged.
-/

set_option autoImplicit false
set_option relaxedAutoImplicit false

namespace TapeMachine

private theorem Settings.exists_of_load {files : Files} {name : String} {settings : List Setting}
    (loaded : load files name = .ok settings) :
    ∃ content document, files.find name = .ok (.file content) ∧
      Toml.Document.ofBytes? content = some document ∧ ofTable? document.table.reverse = some settings := by
  unfold load Files.openSource at loaded
  cases found : files.find name with
  | error reason => simp [found] at loaded
  | ok entry =>
      cases entry with
      | directory => simp [found, Source.readAll] at loaded
      | file content =>
          simp only [found, Source.readAll, Source.ofBytes, ofBytes] at loaded
          split at loaded
          case h_1 => exact absurd loaded nofun
          case h_2 document reads =>
            split at loaded
            case h_1 => exact absurd loaded nofun
            case h_2 settings' read =>
              split at loaded
              case h_1 => exact absurd loaded nofun
              case h_2 =>
                rw [Except.ok.inj loaded] at read
                exact ⟨content, document, rfl, reads, read⟩

namespace Command

open Settings (Field Value nodes)

variable {files : Files} {occurrences occurrences' : List Occurrence} {operands arguments : List String}
  {o : Options} {mentions mentions' : List Mention} {tail : List String}

/-- What the options have to do with flags and operands. -/
structure Resolves (files : Files) (occurrences : List Occurrence) (operands : List String)
    (o : Options) : Prop where
  settings : ∃ file, fileSettings files occurrences = .ok file ∧
    o.settings = layered file (givenSettings occurrences) o.debug
  logLevel : Log.parseLevel o.settings.logLevel = .ok o.logLevel
  framing : Command.framing o.settings.frame o.settings.terminator = .ok o.framing
  origin : Command.origin (lastResume occurrences) (lastCode occurrences) operands = .ok o.origin
  inputs : o.inputs = inputFiles occurrences
  list : o.list = isOn occurrences .list
  dump : o.dump = isOn occurrences .dump
  noRaw : o.noRaw = isOn occurrences .noRaw
  debug : o.debug = isOn occurrences .debug
  trace : o.trace = isOn occurrences .trace

private theorem resolve_eq_ok_iff :
    resolve files occurrences operands = .ok o ↔ Resolves files occurrences operands o := by
  constructor
  · intro resolved
    unfold resolve at resolved
    cases file : fileSettings files occurrences with
    | error e => simp [file] at resolved
    | ok settings =>
        simp only [file] at resolved
        split at resolved
        case h_1 => exact absurd resolved nofun
        case h_2 level parsed =>
          split at resolved
          case h_1 => exact absurd resolved nofun
          case h_2 framing framed =>
            split at resolved
            case h_1 => exact absurd resolved nofun
            case h_2 origin found =>
              rw [← Except.ok.inj resolved]
              exact ⟨⟨settings, file, rfl⟩, parsed, framed, found, rfl, rfl, rfl, rfl, rfl, rfl⟩
  · rintro ⟨⟨file, loaded, settings⟩, level, framed, found, inputs, list, dump, noRaw, debug, trace⟩
    obtain ⟨_, framing, logLevel, origin, _, _, _, _, _, _⟩ := o
    simp only at settings level framed found inputs list dump noRaw debug trace
    subst inputs list dump noRaw debug trace settings
    simp only [resolve, loaded, level, framed, found]

theorem parse_eq_ok_iff : parse files arguments = .ok o ↔
    ∃ occurrences operands, readFlags arguments = .ok (occurrences, operands) ∧
      Resolves files occurrences operands o := by
  unfold parse
  cases read : readFlags arguments with
  | error e => simp
  | ok answer =>
      obtain ⟨occurrences, operands⟩ := answer
      simp [resolve_eq_ok_iff]

/-! ## Layers -/

/-- The value of a setting: that of the last text given to its flag, else that of the last node at its key
in the settings file, else the standard one. -/
def Layered (field : Field) (given : List String) (told : List Toml.Node) (value : Value) : Prop :=
  match given.getLast?, told.getLast? with
  | some text, _ => field.ofText? text = some value
  | none, some node => field.ofNode? node = some value
  | none, none => value = Settings.standard.get field

/-- The table of the settings file that the last flag for it names; empty if there is none or its name is
empty. -/
def Configures (files : Files) (mentions : List Mention) (table : Toml.Table) : Prop :=
  match (values mentions "config").getLast? with
  | none | some "" => table = []
  | some name => ∃ content document, files.find name = .ok (.file content) ∧
      Toml.Document.ofBytes? content = some document ∧ table = document.table

private theorem filterMap_eq_values (name : String) (give : String → Occurrence)
    {argument help : String} {standard : Option String} {pick : Occurrence → Option String}
    (meaning : List.Forall₂ Mention.Means mentions occurrences)
    (known : flag? name = some ⟨name, .text argument give, help, standard⟩)
    (picks : ∀ value, pick (give value) = some value) (skips : ∀ o, o.flag ≠ name → pick o = none) :
    occurrences.filterMap pick = values mentions name := by
  have same : List.Forall₂ (fun m value => m.value = value) (mentions.filter (·.name = name))
      (occurrences.filterMap pick) := by
    refine forall₂_filterMap meaning (fun m o means named => ?_) fun m o means other => ?_
    · obtain rfl : m.name = name := of_decide_eq_true named
      rw [means.eq_give known]
      exact ⟨m.value, picks m.value, rfl⟩
    · apply skips
      rw [means.tells.1]
      exact of_decide_eq_false other
  have equal : List.Forall₂ (· = ·) (values mentions name) (occurrences.filterMap pick) :=
    List.forall₂_map_left_iff.mpr same
  rw [List.forall₂_eq_eq_eq] at equal
  exact equal.symm

private theorem settingsFile?_eq (meaning : List.Forall₂ Mention.Means mentions occurrences) :
    settingsFile? occurrences = (values mentions "config").getLast?.filter (!·.isEmpty) := by
  unfold settingsFile?
  rw [filterMap_eq_values "config" .settingsFile meaning rfl fun _ => rfl]
  intro o other
  cases o with
  | settingsFile => exact absurd rfl other
  | _ => rfl

private theorem inputFiles_eq (meaning : List.Forall₂ Mention.Means mentions occurrences) :
    inputFiles occurrences = values mentions "with" := by
  unfold inputFiles
  rw [filterMap_eq_values "with" .input meaning rfl fun _ => rfl]
  intro o other
  cases o with
  | input => exact absurd rfl other
  | _ => rfl

theorem lastCode_eq (meaning : List.Forall₂ Mention.Means mentions occurrences) :
    lastCode occurrences = (values mentions "e").getLastD "" := by
  unfold lastCode
  rw [filterMap_eq_values "e" .code meaning rfl fun _ => rfl]
  intro o other
  cases o with
  | code => exact absurd rfl other
  | _ => rfl

theorem lastResume_eq (meaning : List.Forall₂ Mention.Means mentions occurrences) :
    lastResume occurrences = (values mentions "resume").getLastD "" := by
  unfold lastResume
  rw [filterMap_eq_values "resume" .resume meaning rfl fun _ => rfl]
  intro o other
  cases o with
  | resume => exact absurd rfl other
  | _ => rfl

theorem isOn_iff (meaning : List.Forall₂ Mention.Means mentions occurrences) (s : Switch) :
    isOn occurrences s = true ↔
      ∃ text, (values mentions s.flag).getLast? = some text ∧ truth? text = some true := by
  obtain ⟨answers, answered, related⟩ : ∃ answers, isOn occurrences s = answers.getLastD false ∧
      List.Forall₂ (fun text on => truth? text = some on) (values mentions s.flag) answers := by
    refine ⟨_, rfl, forall₂_values meaning (fun o value named read => ?_) fun o other => ?_⟩
    · obtain ⟨on, rfl⟩ := Occurrence.eq_switch_of_flag named
      exact ⟨on, if_pos rfl, read⟩
    · cases o with
      | switch s' on =>
          have different : s' ≠ s := fun same => other (congrArg Switch.flag same)
          exact if_neg different
      | _ => rfl
  rw [answered, List.getLastD_eq_getLast?]
  rcases getLast?_of_forall₂ related with ⟨no_text, no_value⟩ | ⟨text, on, last, value, read⟩
  · rw [no_text, no_value]
    simp
  · rw [last, value]
    simp [read]

private theorem given_of_field (meaning : List.Forall₂ Mention.Means mentions occurrences)
    (field : Field) :
    List.Forall₂ (fun text x => field.ofText? text = some (Setting.value x)) (values mentions field.flag)
      ((givenSettings occurrences).filter (·.field = field)) := by
  unfold givenSettings
  rw [List.filter_filterMap]
  refine forall₂_values meaning (fun o value named read => ?_) fun o other => ?_
  · obtain ⟨x, rfl, same⟩ := Occurrence.eq_setting_of_flag named
    refine ⟨x, by simp [same], ?_⟩
    rw [← same]
    exact read
  · cases o with
    | setting x =>
        have different : x.field ≠ field := fun same => other (congrArg Field.flag same)
        simp [different]
    | _ => rfl

private theorem Consists.values_logLevel (consists : Consists arguments mentions tail operands) :
    values mentions Field.logLevel.flag = [] := by
  have unnamed : ∀ m ∈ mentions, m.name ≠ "" := by
    intro m member same
    have known := consists.known m member
    rw [same] at known
    exact absurd known (by decide +kernel)
  unfold values
  rw [List.map_eq_nil_iff, List.filter_eq_nil_iff]
  intro m member named
  exact unnamed m member (of_decide_eq_true named)

private theorem exists_table {file : List Setting}
    (meaning : List.Forall₂ Mention.Means mentions occurrences)
    (loaded : fileSettings files occurrences = .ok file) :
    ∃ table, Configures files mentions table ∧ Settings.ofTable? table.reverse = some file := by
  unfold fileSettings at loaded
  rw [settingsFile?_eq meaning] at loaded
  unfold Configures
  cases last : (values mentions "config").getLast? with
  | none =>
      rw [last] at loaded
      rw [← Except.ok.inj loaded]
      exact ⟨[], rfl, rfl⟩
  | some name =>
      rw [last] at loaded
      by_cases empty : name = ""
      · subst empty
        rw [← Except.ok.inj loaded]
        exact ⟨[], rfl, rfl⟩
      · have named : (some name).filter (!·.isEmpty) = some name := by simp [empty]
        rw [named] at loaded
        obtain ⟨content, document, found, reads, read⟩ := Settings.exists_of_load loaded
        refine ⟨document.table, ?_, read⟩
        split
        case h_1 same => exact absurd same nofun
        case h_2 same => exact absurd (Option.some.inj same) empty
        case h_3 same =>
          rw [Option.some.inj same] at found
          exact ⟨content, document, found, reads, rfl⟩

private theorem layered_of_meaning {file : List Setting} {table : Toml.Table} {field : Field}
    {debug : Bool} (meaning : List.Forall₂ Mention.Means mentions occurrences)
    (read : Settings.ofTable? table.reverse = some file) (free : debug = false ∨ field ≠ .logLevel) :
    Layered field (values mentions field.flag) (nodes table field.key)
      ((layered file (givenSettings occurrences) debug).get field) := by
  have undisturbed : (layered file (givenSettings occurrences) debug).get field =
      ((Settings.standard.setAll file).setAll (givenSettings occurrences)).get field := by
    unfold layered
    rcases free with rfl | other
    · rfl
    · have different : (Setting.logLevel "debug").field ≠ field := Ne.symm other
      split
      · rw [Settings.get_set, if_neg different]
      · rfl
  rw [undisturbed, Settings.get_setAll, Settings.get_setAll, Layered]
  rcases getLast?_of_forall₂ (given_of_field meaning field) with
    ⟨no_text, no_flag⟩ | ⟨text, x, last, given, reads⟩
  · rw [no_text, no_flag]
    rcases getLast?_of_forall₂ (Settings.told_of_field read field) with
      ⟨no_node, no_entry⟩ | ⟨node, x, last, told, reads⟩
    · rw [no_node, no_entry]
      rfl
    · rw [last, told]
      exact reads
  · rw [last, given]
    exact reads

/-! ## Exchanging flags -/

/-- Flags are moved past flags of other names. -/
inductive Moved (mentions : List Mention) : List Mention → Prop
  | refl : Moved mentions mentions
  | swap {front back : List Mention} {m m' : Mention} (other : m.name ≠ m'.name)
    (before : Moved mentions (front ++ m :: m' :: back)) :
    Moved mentions (front ++ m' :: m :: back)

private theorem Moved.perm (moved : Moved mentions mentions') : mentions.Perm mentions' := by
  induction moved with
  | refl => exact .refl _
  | @swap front back m m' _ _ ih => exact ih.trans ((List.Perm.swap m' m back).append_left front)

private theorem Moved.values_eq (moved : Moved mentions mentions') (name : String) :
    values mentions name = values mentions' name := by
  induction moved with
  | refl => rfl
  | @swap front back m m' other _ ih =>
      rw [ih]
      unfold values
      rw [List.filter_append, List.filter_append]
      congr 2
      by_cases named : m.name = name
      · have unnamed : m'.name ≠ name := fun same => other (named.trans same.symm)
        simp [named, unnamed]
      · simp [List.filter_cons, named]

private theorem map_value_given (meaning : List.Forall₂ Mention.Means mentions occurrences)
    (field : Field) :
    ((givenSettings occurrences).filter (·.field = field)).map Setting.value =
      (values mentions field.flag).filterMap field.ofText? := by
  have related := given_of_field meaning field
  generalize (givenSettings occurrences).filter (·.field = field) = settings,
    values mentions field.flag = texts at related
  induction related with
  | nil => rfl
  | cons read _ ih => rw [List.filterMap_cons_some read, List.map_cons, ih]

theorem Resolves.of_values (resolves : Resolves files occurrences operands o)
    (meaning : List.Forall₂ Mention.Means mentions occurrences)
    (meaning' : List.Forall₂ Mention.Means mentions' occurrences')
    (same : ∀ name, name ≠ Switch.list.flag → values mentions name = values mentions' name) :
    Resolves files occurrences' operands { o with list := isOn occurrences' .list } := by
  have switches (s : Switch) (other : s ≠ .list) : isOn occurrences s = isOn occurrences' s := by
    rw [Bool.eq_iff_iff, isOn_iff meaning, isOn_iff meaning', same s.flag (mt Switch.flag_injective other)]
  have fileName : settingsFile? occurrences = settingsFile? occurrences' := by
    rw [settingsFile?_eq meaning, settingsFile?_eq meaning', same "config" (by decide)]
  have resume : lastResume occurrences = lastResume occurrences' := by
    rw [lastResume_eq meaning, lastResume_eq meaning', same "resume" (by decide)]
  have code : lastCode occurrences = lastCode occurrences' := by
    rw [lastCode_eq meaning, lastCode_eq meaning', same "e" (by decide)]
  have inputs : inputFiles occurrences = inputFiles occurrences' := by
    rw [inputFiles_eq meaning, inputFiles_eq meaning', same "with" (by decide)]
  have settings (file : List Setting) : (Settings.standard.setAll file).setAll (givenSettings occurrences) =
      (Settings.standard.setAll file).setAll (givenSettings occurrences') := by
    apply Settings.ext_get
    intro field
    have other : field.flag ≠ Switch.list.flag := by cases field <;> decide
    rw [Settings.get_setAll, Settings.get_setAll _ (givenSettings occurrences'), ← List.getLast?_map,
      ← List.getLast?_map, map_value_given meaning, map_value_given meaning', same field.flag other]
  obtain ⟨file, loaded, stands⟩ := resolves.settings
  have loaded' : fileSettings files occurrences' = .ok file := by
    rw [← loaded, fileSettings, fileSettings, fileName]
  refine ⟨⟨file, loaded', ?_⟩, resolves.logLevel, resolves.framing, ?_, resolves.inputs.trans inputs, rfl,
    resolves.dump.trans (switches _ nofun), resolves.noRaw.trans (switches _ nofun),
    resolves.debug.trans (switches _ nofun), resolves.trace.trans (switches _ nofun)⟩
  · rw [layered, ← settings]
    exact stands
  · rw [← resume, ← code]
    exact resolves.origin

/-- What an accepted command line says is what the flags that it is made of say. -/
theorem exists_resolves (consists : Consists arguments mentions tail operands)
    (parsed : parse files arguments = .ok o) :
    ∃ occurrences, List.Forall₂ Mention.Means mentions occurrences ∧
      Resolves files occurrences operands o := by
  obtain ⟨occurrences, rest, read, resolves⟩ := parse_eq_ok_iff.mp parsed
  obtain ⟨rfl, meaning⟩ := means_of_consists consists read
  exact ⟨occurrences, meaning, resolves⟩

private theorem Consists.moved (consists : Consists arguments mentions tail operands)
    (moved : Moved mentions mentions') :
    Consists (mentions'.flatMap (·.arguments) ++ tail) mentions' tail operands where
  parts := rfl
  known := fun m member => consists.known m (moved.perm.mem_iff.mpr member)
  spelled := fun m member => consists.spelled m (moved.perm.mem_iff.mpr member)
  ends := consists.ends

private theorem parse_of_moved (consists : Consists arguments mentions tail operands)
    (meaning : List.Forall₂ Mention.Means mentions occurrences)
    (resolves : Resolves files occurrences operands o) (moved : Moved mentions mentions') :
    parse files (mentions'.flatMap (·.arguments) ++ tail) = .ok o := by
  obtain ⟨occurrences', meaning', -⟩ := List.perm_comp_forall₂ moved.perm.symm meaning
  have list : o.list = isOn occurrences' .list := by
    rw [resolves.list, Bool.eq_iff_iff, isOn_iff meaning, isOn_iff meaning', moved.values_eq]
  have same : Resolves files occurrences' operands { o with list := isOn occurrences' .list } :=
    resolves.of_values meaning meaning' fun name _ => moved.values_eq name
  rw [← list] at same
  exact parse_eq_ok_iff.mpr ⟨occurrences', operands, readFlags_of_consists (consists.moved moved) meaning',
    same⟩

/-- A command line that is accepted is made of flags. However it is read, every setting has the value of
the last flag for it, else that of the settings file, else the standard one; input files are kept in
order; and flags may be moved past flags of other names without any change. The log level has a switch in
the place of a flag. -/
theorem flags_over_file_over_standard (files : Files) (arguments : List String) (o : Options)
    (parsed : parse files arguments = .ok o) :
    (∃ mentions tail operands, Consists arguments mentions tail operands) ∧
      ∀ mentions tail operands, Consists arguments mentions tail operands →
        ∃ table, Configures files mentions table ∧
          (∀ field, field ≠ .logLevel →
            Layered field (values mentions field.flag) (nodes table field.key) (o.settings.get field)) ∧
          (o.debug = true ↔
            ∃ text, (values mentions "debug").getLast? = some text ∧ truth? text = some true) ∧
          (o.debug = true → o.settings.logLevel = "debug") ∧
          (o.debug = false →
            Layered .logLevel [] (nodes table "log-level") (.text o.settings.logLevel)) ∧
          Log.parseLevel o.settings.logLevel = .ok o.logLevel ∧
          o.inputs = values mentions "with" ∧
          ∀ mentions', Moved mentions mentions' →
            parse files (mentions'.flatMap (·.arguments) ++ tail) = .ok o := by
  constructor
  · obtain ⟨occurrences, operands, read, _⟩ := parse_eq_ok_iff.mp parsed
    obtain ⟨mentions, tail, consists, _⟩ := exists_consists_of_readFlags read
    exact ⟨mentions, tail, operands, consists⟩
  · intro mentions tail operands consists
    obtain ⟨occurrences, meaning, resolves⟩ := exists_resolves consists parsed
    obtain ⟨file, loaded, stands⟩ := resolves.settings
    obtain ⟨table, configures, tells⟩ := exists_table meaning loaded
    have layers (field : Field) (free : o.debug = false ∨ field ≠ .logLevel) : Layered field
        (values mentions field.flag) (nodes table field.key) (o.settings.get field) := by
      rw [stands]
      exact layered_of_meaning meaning tells free
    have debug : o.debug = true ↔
        ∃ text, (values mentions "debug").getLast? = some text ∧ truth? text = some true := by
      rw [resolves.debug]
      exact isOn_iff meaning .debug
    refine ⟨table, configures, ?_, debug, ?_, ?_, resolves.logLevel, ?_, ?_⟩
    · intro field other
      exact layers field (.inr other)
    · intro on
      rw [stands, on]
      rfl
    · intro off
      have level := layers .logLevel (.inl off)
      rw [consists.values_logLevel] at level
      exact level
    · exact resolves.inputs.trans (inputFiles_eq meaning)
    · intro mentions' moved
      exact parse_of_moved consists meaning resolves moved

/-- A flag that gives the standard value is not overruled by a settings file named after it, and what no
flag gives is taken from the file. -/
theorem flags_over_file_over_standard_mixed :
    ∃ o, parse ⟨[(["c"], .file (Text.bytes "cells = 7\nInput = 9\n"))]⟩
        ["-cells", "32768", "-config=c", "-e", "+"] = .ok o ∧
      o.settings = { Settings.standard with input := 9 } ∧
      ∃ mentions tail operands table,
        Consists ["-cells", "32768", "-config=c", "-e", "+"] mentions tail operands ∧
        Configures ⟨[(["c"], .file (Text.bytes "cells = 7\nInput = 9\n"))]⟩ mentions table ∧
        ∀ field, field ≠ .logLevel →
          Layered field (values mentions field.flag) (nodes table field.key) (o.settings.get field) := by
  have parsed : parse ⟨[(["c"], .file (Text.bytes "cells = 7\nInput = 9\n"))]⟩
      ["-cells", "32768", "-config=c", "-e", "+"] =
      .ok ⟨{ Settings.standard with input := 9 }, .lines, 0, .text "+", [], false, false, false, false,
        false⟩ := by
    decide +kernel
  obtain ⟨⟨mentions, tail, operands, consists⟩, told⟩ := flags_over_file_over_standard _ _ _ parsed
  obtain ⟨table, configures, layers, -⟩ := told mentions tail operands consists
  exact ⟨_, parsed, rfl, mentions, tail, operands, table, consists, configures, layers⟩

end Command

end TapeMachine
