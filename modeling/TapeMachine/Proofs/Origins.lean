import TapeMachine.Command.Session
import TapeMachine.Proofs.Calls
import TapeMachine.Proofs.Options
/-!
# Where the program comes from

A command line that is accepted names a saved machine, a program text or a program file, and only one
of them. What is loaded is told by the texts that are not empty, so that the one argument of a command
line is opened as a file, unless it is empty: then nothing is named, and the program is empty.
-/

set_option autoImplicit false
set_option relaxedAutoImplicit false

namespace TapeMachine

variable {files : Files} {name : String} {program : List UInt8} {source : Source}

private theorem Files.readAll_openSource_iff :
    (∃ source, files.openSource name = .ok source ∧ source.readAll = .ok program) ↔
      files.find name = .ok (.file program) := by
  unfold openSource
  cases files.find name with
  | error reason => simp
  | ok entry => cases entry <;> simp [Source.readAll, Source.ofBytes]

private theorem Assembly.assemble_eq_ok_iff :
    assemble name source = .ok program ↔
      source.readAll = .ok program ∧ ∃ jumps, link program = .ok jumps := by
  unfold assemble
  cases source.readAll with
  | error fault => simp
  | ok content =>
      simp only [Except.ok.injEq]
      constructor
      · intro assembled
        split at assembled
        case h_1 jumps linked =>
          obtain rfl := Except.ok.inj assembled
          exact ⟨rfl, jumps, linked⟩
        case h_2 => exact absurd assembled nofun
      · rintro ⟨rfl, jumps, linked⟩
        rw [linked]

namespace Command

variable {arguments operands tail : List String} {mentions : List Mention} {resume code : String}
  {source : Origin} {o : Options} {m : Machine} {settings : Settings}

/-! ## Naming -/

/-- A command line whose last saved machine and last program text are given, empty if there are none,
names an origin with its arguments. -/
inductive Names (resume code : String) (operands : List String) : Origin → Prop
  | snapshot (given : resume ≠ "") (no_code : code = "") (no_file : operands = []) :
    Names resume code operands (.snapshot resume)
  | text (no_snapshot : resume = "") (given : code ≠ "") (no_file : operands = []) :
    Names resume code operands (.text code)
  | file {name : String} (no_snapshot : resume = "") (no_code : code = "") (given : operands = [name]) :
    Names resume code operands (.file name)

/-- The texts of an origin, of which the first that is not empty tells what it is. -/
def Origin.texts (source : Origin) : List String := [source.snapshotName, source.fileName, source.code]

/-- The origin that is told by the texts which are not empty; a program text if none is. -/
def Origin.told (source : Origin) : Origin :=
  if source.snapshotName ≠ "" then .snapshot source.snapshotName
  else if source.fileName ≠ "" then .file source.fileName
  else .text source.code

private theorem origin_eq_ok_iff :
    origin resume code operands = .ok source ↔ Names resume code operands source := by
  constructor
  · intro named
    unfold origin at named
    by_cases saved : resume = ""
    · by_cases typed : code = ""
      · rw [if_neg (by simp [saved]), if_neg (by simp [typed])] at named
        split at named
        case h_1 name =>
          rw [← Except.ok.inj named]
          exact .file saved typed rfl
        case h_2 => exact absurd named nofun
      · rw [if_neg (by simp [saved]), if_pos (by simp [typed])] at named
        split at named
        case isTrue alone =>
          rw [← Except.ok.inj named]
          exact .text saved typed (List.isEmpty_iff.mp alone)
        case isFalse => exact absurd named nofun
    · rw [if_pos (by simp [saved])] at named
      split at named
      case isTrue alone =>
        rw [Bool.and_eq_true, List.isEmpty_iff, String.isEmpty_iff] at alone
        rw [← Except.ok.inj named]
        exact .snapshot saved alone.2 alone.1
      case isFalse => exact absurd named nofun
  · intro named
    cases named with
    | snapshot given no_code no_file =>
        subst no_code no_file
        simp [origin, given]
    | text no_snapshot given no_file =>
        subst no_snapshot no_file
        simp [origin, given]
    | file no_snapshot no_code given =>
        subst no_snapshot no_code given
        rfl

private theorem names_of_parse (consists : Consists arguments mentions tail operands)
    (parsed : parse files arguments = .ok o) :
    Names ((values mentions "resume").getLastD "") ((values mentions "e").getLastD "") operands
      o.origin := by
  obtain ⟨occurrences, meaning, resolves⟩ := exists_resolves consists parsed
  have named := resolves.origin
  rw [lastResume_eq meaning, lastCode_eq meaning] at named
  exact origin_eq_ok_iff.mp named

private theorem Origin.eq_snapshot (saved : source.snapshotName ≠ "") :
    source = .snapshot source.snapshotName := by
  cases source with
  | snapshot => rfl
  | text | file => exact absurd rfl saved

private theorem Origin.eq_text (typed : source.code ≠ "") : source = .text source.code := by
  cases source with
  | text => rfl
  | snapshot | file => exact absurd rfl typed

namespace Names

private theorem snapshotName_eq (names : Names resume code operands source) :
    source.snapshotName = resume := by
  cases names with
  | snapshot => rfl
  | text no_snapshot | file no_snapshot => exact no_snapshot.symm

private theorem code_eq (names : Names resume code operands source) : source.code = code := by
  cases names with
  | text => rfl
  | snapshot _ no_code | file _ no_code => exact no_code.symm

private theorem fileName_eq (names : Names resume code operands source) :
    source.fileName = operands.headD "" ∧ operands.length ≤ 1 := by
  cases names with
  | snapshot _ _ no_file | text _ _ no_file =>
      subst no_file
      exact ⟨rfl, Nat.zero_le 1⟩
  | file _ _ given =>
      subst given
      exact ⟨rfl, Nat.le_refl 1⟩

private theorem eq_file (names : Names resume code [name] source) : source = .file name := by
  cases names with
  | snapshot _ _ no_file | text _ _ no_file => exact absurd no_file (List.cons_ne_nil _ _)
  | file _ _ given =>
      obtain rfl := List.singleton_inj.mp given
      rfl

private theorem countP_texts (names : Names resume code operands source) :
    source.texts.countP (· ≠ "") = if operands = [""] then 0 else 1 := by
  cases names with
  | snapshot given _ no_file =>
      subst no_file
      simp [Origin.texts, Origin.snapshotName, Origin.fileName, Origin.code, given]
  | text _ given no_file =>
      subst no_file
      simp [Origin.texts, Origin.snapshotName, Origin.fileName, Origin.code, given]
  | @file name _ _ given =>
      subst given
      by_cases empty : name = ""
      · simp [Origin.texts, Origin.snapshotName, Origin.fileName, Origin.code, empty]
      · simp [Origin.texts, Origin.snapshotName, Origin.fileName, Origin.code, empty]

private theorem told_eq (names : Names resume code operands source) :
    source.told = if operands = [""] then .text "" else source := by
  cases names with
  | snapshot given _ no_file =>
      subst no_file
      simp [Origin.told, Origin.snapshotName, given]
  | text _ _ no_file =>
      subst no_file
      simp [Origin.told, Origin.snapshotName, Origin.fileName, Origin.code]
  | @file name _ _ given =>
      subst given
      by_cases empty : name = ""
      · simp [Origin.told, Origin.snapshotName, Origin.fileName, Origin.code, empty]
      · simp [Origin.told, Origin.snapshotName, Origin.fileName, empty]

end Names

/-! ## Loading -/

private theorem loadProgram_unnamed_iff (unnamed : source.fileName = "") :
    loadProgram files source = .ok program ↔
      program = Text.bytes source.code ∧ ∃ jumps, link program = .ok jumps := by
  have assembled : loadProgram files source = .ok program ↔
      Assembly.assemble textName (.ofBytes (Text.bytes source.code)) = .ok program := by
    unfold loadProgram
    rw [if_pos (by simp [unnamed])]
    cases done : Assembly.assemble textName (.ofBytes (Text.bytes source.code)) <;> simp [done]
  rw [assembled, Assembly.assemble_eq_ok_iff, Source.readAll, Source.ofBytes, Except.ok.injEq,
    eq_comm]

theorem loadProgram_named_iff (named : name ≠ "") :
    loadProgram files (.file name) = .ok program ↔
      files.find name = .ok (.file program) ∧ ∃ jumps, link program = .ok jumps := by
  have assembled : loadProgram files (.file name) = .ok program ↔
      ∃ opened, files.openSource name = .ok opened ∧ Assembly.assemble name opened = .ok program := by
    unfold loadProgram
    rw [if_neg (by simpa [Origin.fileName] using named)]
    simp only [Origin.fileName]
    cases files.openSource name with
    | error fault => simp
    | ok opened => cases done : Assembly.assemble name opened <;> simp [done]
  rw [assembled, ← Files.readAll_openSource_iff]
  simp only [Assembly.assemble_eq_ok_iff, ← and_assoc, exists_and_right]

private theorem loadProgram_of_unopened {fault : FileFault} (named : name ≠ "")
    (unopened : files.openSource name = .error fault) :
    loadProgram files (.file name) = .error (.program fault) := by
  unfold loadProgram
  rw [if_neg (by simpa [Origin.fileName] using named)]
  simp only [Origin.fileName, unopened]

private theorem prepareMachine_eq_ok_iff :
    prepareMachine files settings source = .ok m ↔
      ∃ program jumps blank, loadProgram files source = .ok program ∧ link program = .ok jumps ∧
        Machine.create [(.cells, settings.cells), (.input, settings.input),
          (.output, settings.output)] = .ok blank ∧ m = blank.loaded program jumps := by
  unfold prepareMachine
  cases loadProgram files source with
  | error e => simp
  | ok program =>
      cases Machine.create [(.cells, settings.cells), (.input, settings.input),
          (.output, settings.output)] with
      | error e => simp
      | ok blank =>
          simp only [Except.ok.injEq]
          constructor
          · intro done
            split at done
            case h_1 => exact absurd done nofun
            case h_2 m' prepared =>
              obtain rfl := Except.ok.inj done
              obtain ⟨jumps, linked, same⟩ := Machine.prepare_eq_ok_iff.mp prepared
              exact ⟨program, jumps, blank, rfl, linked, rfl, same⟩
          · rintro ⟨_, jumps, _, rfl, linked, rfl, rfl⟩
            rw [Machine.prepare_eq_ok_iff.mpr ⟨jumps, linked, rfl⟩]

private theorem buildMachine_of_fresh (fresh : ∀ name, o.origin ≠ .snapshot name) :
    buildMachine files o =
      match prepareMachine files o.settings o.origin with
      | .error e => .error (e, none)
      | .ok m => .ok m := by
  unfold buildMachine
  split
  case h_1 name saved => exact absurd saved (fresh name)
  case h_2 => rfl

theorem buildMachine_fresh_iff (fresh : ∀ name, o.origin ≠ .snapshot name) :
    buildMachine files o = .ok m ↔
      ∃ program jumps blank, loadProgram files o.origin = .ok program ∧ link program = .ok jumps ∧
        Machine.create [(.cells, o.settings.cells), (.input, o.settings.input),
          (.output, o.settings.output)] = .ok blank ∧ m = blank.loaded program jumps := by
  rw [buildMachine_of_fresh fresh, ← prepareMachine_eq_ok_iff]
  cases prepareMachine files o.settings o.origin <;> simp

theorem buildMachine_saved_iff (saved : o.origin = .snapshot name) :
    buildMachine files o = .ok m ↔
      ∃ img blank, Image.load files name = .ok img ∧ Machine.create img.sizes = .ok blank ∧
        blank.restore img = .ok m := by
  unfold buildMachine resumeMachine
  rw [saved]
  cases loaded : Image.load files name with
  | error e => simp [loaded]
  | ok img =>
      cases created : Machine.create img.sizes with
      | error e => simp [loaded, created]
      | ok blank => cases restored : blank.restore img <;> simp [loaded, created, restored]

/-- What is given is the program: it is loaded if it links, and the machine is built from it if the sizes
are positive. -/
structure LoadsFrom (files : Files) (o : Options) (given : List UInt8 → Prop) : Prop where
  loaded : ∀ program, loadProgram files o.origin = .ok program ↔
    given program ∧ ∃ jumps, link program = .ok jumps
  built : ∀ m, buildMachine files o = .ok m ↔
    ∃ program jumps blank, given program ∧ link program = .ok jumps ∧
      Machine.create [(.cells, o.settings.cells), (.input, o.settings.input),
        (.output, o.settings.output)] = .ok blank ∧ m = blank.loaded program jumps

private theorem LoadsFrom.of_loaded {given : List UInt8 → Prop}
    (fresh : ∀ name, o.origin ≠ .snapshot name)
    (loaded : ∀ program, loadProgram files o.origin = .ok program ↔
      given program ∧ ∃ jumps, link program = .ok jumps) : LoadsFrom files o given where
  loaded := loaded
  built := by
    intro m
    rw [buildMachine_fresh_iff fresh]
    constructor
    · rintro ⟨program, jumps, blank, found, linked, rest⟩
      exact ⟨program, jumps, blank, ((loaded program).mp found).1, linked, rest⟩
    · rintro ⟨program, jumps, blank, given, linked, rest⟩
      exact ⟨program, jumps, blank, (loaded program).mpr ⟨given, jumps, linked⟩, linked, rest⟩

theorem Names.buildMachine_told (names : Names resume code operands o.origin) (files : Files) :
    buildMachine files { o with origin := o.origin.told } = buildMachine files o := by
  rw [names.told_eq]
  split
  case isFalse => rfl
  case isTrue empty =>
    subst empty
    have fresh : ∀ name, o.origin ≠ .snapshot name := by
      rw [names.eq_file]
      exact nofun
    have unsaved : ∀ name, ({ o with origin := .text "" } : Options).origin ≠ .snapshot name := by
      intro name
      simp
    -- no file and no text: loading a file without a name is loading the empty text
    rw [buildMachine_of_fresh unsaved, buildMachine_of_fresh fresh, names.eq_file]
    rfl

private theorem loadsFrom_text (typed : o.origin.code ≠ "") (files : Files) :
    LoadsFrom files o (· = Text.bytes o.origin.code) := by
  have text := Origin.eq_text typed
  apply LoadsFrom.of_loaded
  · rw [text]
    exact nofun
  · intro program
    apply loadProgram_unnamed_iff
    rw [text]
    rfl

private theorem Names.loadsFrom_file (names : Names resume code [name] o.origin) (named : name ≠ "")
    (files : Files) :
    LoadsFrom files o (fun program => files.find name = .ok (.file program)) ∧
      ∀ fault, files.openSource name = .error fault →
        buildMachine files o = .error (.program fault, none) := by
  have fresh : ∀ name, o.origin ≠ .snapshot name := by
    rw [names.eq_file]
    exact nofun
  constructor
  · apply LoadsFrom.of_loaded fresh
    intro program
    rw [names.eq_file]
    exact loadProgram_named_iff named
  · intro fault unopened
    rw [buildMachine_of_fresh fresh, names.eq_file, prepareMachine,
      loadProgram_of_unopened named unopened]

private theorem Names.loadsFrom_empty (names : Names resume code [""] o.origin) (files : Files) :
    LoadsFrom files o (· = []) := by
  apply LoadsFrom.of_loaded
  · rw [names.eq_file]
    exact nofun
  · intro program
    rw [names.eq_file]
    exact loadProgram_unnamed_iff rfl

/-- An accepted command line names just one of a saved machine, a program text and a program file, by the
last flag of each kind and the only argument, and that is what is loaded: an argument is opened as a
file. An argument that is empty is the exception. It names nothing, no file is opened, and the empty
program is loaded. -/
theorem arguments_name_one_source (files : Files) (arguments : List String) (o : Options)
    (parsed : parse files arguments = .ok o) :
    (∃ mentions tail operands, Consists arguments mentions tail operands) ∧
      ∀ mentions tail operands, Consists arguments mentions tail operands →
        o.origin.snapshotName = (values mentions "resume").getLastD "" ∧
        o.origin.code = (values mentions "e").getLastD "" ∧
        o.origin.fileName = operands.headD "" ∧ operands.length ≤ 1 ∧
        o.origin.texts.countP (· ≠ "") = (if operands = [""] then 0 else 1) ∧
        (operands ≠ [""] → o.origin.told = o.origin) ∧
        ∀ files' : Files,
          buildMachine files' { o with origin := o.origin.told } = buildMachine files' o ∧
          (o.origin.snapshotName ≠ "" → ∀ m, buildMachine files' o = .ok m ↔
            ∃ img blank, Image.load files' o.origin.snapshotName = .ok img ∧
              Machine.create img.sizes = .ok blank ∧ blank.restore img = .ok m) ∧
          (o.origin.code ≠ "" → LoadsFrom files' o (· = Text.bytes o.origin.code)) ∧
          (∀ name, operands = [name] → name ≠ "" →
            LoadsFrom files' o (fun program => files'.find name = .ok (.file program)) ∧
            ∀ fault, files'.openSource name = .error fault →
              buildMachine files' o = .error (.program fault, none)) ∧
          (operands = [""] → LoadsFrom files' o (· = [])) := by
  constructor
  · obtain ⟨occurrences, operands, read, _⟩ := parse_eq_ok_iff.mp parsed
    obtain ⟨mentions, tail, consists, _⟩ := exists_consists_of_readFlags read
    exact ⟨mentions, tail, operands, consists⟩
  · intro mentions tail operands consists
    have names := names_of_parse consists parsed
    refine ⟨names.snapshotName_eq, names.code_eq, names.fileName_eq.1, names.fileName_eq.2,
      names.countP_texts, fun named => by rw [names.told_eq, if_neg named], fun files' =>
      ⟨names.buildMachine_told files', ?_, ?_, ?_, ?_⟩⟩
    · intro saved m
      exact buildMachine_saved_iff (Origin.eq_snapshot saved)
    · intro typed
      exact loadsFrom_text typed files'
    · rintro name rfl named
      exact names.loadsFrom_file named files'
    · rintro rfl
      exact names.loadsFrom_empty files'

/-- A program text that is given and taken back does not stand in the way of the argument, which is
opened as a file. -/
theorem arguments_name_one_source_reset : ∃ o,
    parse ⟨[(["x"], .file [44])]⟩ ["-e", "+", "-e=", "x"] = .ok o ∧
    o.origin.texts.countP (· ≠ "") = 1 ∧ o.origin.told = o.origin ∧
    Files.find ⟨[(["x"], .file [44])]⟩ "x" = .ok (.file [44]) ∧
    loadProgram ⟨[(["x"], .file [44])]⟩ o.origin = .ok [44] := by
  have parsed : parse ⟨[(["x"], .file [44])]⟩ ["-e", "+", "-e=", "x"] = .ok
      ⟨Settings.standard, .lines, 0, .file "x", [], false, false, false, false, false⟩ := by
    decide +kernel
  have consists : Consists ["-e", "+", "-e=", "x"] [⟨"e", "+", ["-e", "+"]⟩, ⟨"e", "", ["-e="]⟩]
      ["x"] ["x"] := by
    refine ⟨rfl, by decide, ?_, .plain (.inr (by decide)) []⟩
    rw [List.forall_mem_cons, List.forall_mem_singleton]
    exact ⟨.apart List.mem_cons_self (by decide), .joined List.mem_cons_self⟩
  have found : Files.find ⟨[(["x"], .file [44])]⟩ "x" = .ok (.file [44]) := rfl
  obtain ⟨_, _, _, _, count, told, loads⟩ :=
    (arguments_name_one_source _ _ _ parsed).2 _ _ _ consists
  obtain ⟨_, _, _, opened, _⟩ := loads ⟨[(["x"], .file [44])]⟩
  have loaded := ((opened "x" rfl (by decide)).1.loaded [44]).mpr ⟨found, _, rfl⟩
  exact ⟨_, parsed, count, told (by decide), found, loaded⟩

/-- An empty argument names nothing, and it is not opened: the empty program is loaded in its place. -/
theorem empty_argument_names_nothing : ∃ o,
    parse .empty [""] = .ok o ∧ o.origin.texts.countP (· ≠ "") = 0 ∧
    Files.empty.openSource "" = .error ⟨.opening, "", .missing⟩ ∧
    loadProgram .empty o.origin = .ok [] := by
  have parsed : parse .empty [""] = .ok
      ⟨Settings.standard, .lines, 0, .file "", [], false, false, false, false, false⟩ := by
    decide +kernel
  exact ⟨_, parsed, by decide, rfl, rfl⟩

end Command

end TapeMachine
