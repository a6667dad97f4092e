import TapeMachine.Command.Options
import TapeMachine.Proofs.CommandLines
/-!
# Layers of settings

Every setting has the value of the last flag that gives it, else that of its key in the settings file,
else its standard value. The flags of one name are looked at apart from the others, so it does not matter
how flags of different names are mixed, the one that names the settings file included.
-/

set_option autoImplicit false
set_option relaxedAutoImplicit false

namespace TapeMachine

section Select

variable {α β γ : Type} {R : α → β → Prop} {S : α → γ → Prop} {xs : List α} {ys : List β}

theorem forall₂_filterMap {part : α → Bool} {pick : β → Option γ} (related : List.Forall₂ R xs ys)
    (picks : ∀ x y, R x y → part x = true → ∃ z, pick y = some z ∧ S x z)
    (skips : ∀ x y, R x y → part x = false → pick y = none) :
    List.Forall₂ S (xs.filter part) (ys.filterMap pick) := by
  induction related with
  | nil => exact .nil
  | @cons x y xs ys here _ ih =>
      cases inside : part x with
      | true =>
          obtain ⟨z, picked, holds⟩ := picks x y here inside
          rw [List.filter_cons_of_pos inside, List.filterMap_cons_some picked]
          exact .cons holds ih
      | false =>
          rw [List.filter_cons_of_neg (by simp [inside]),
            List.filterMap_cons_none (skips x y here inside)]
          exact ih

theorem getLast?_of_forall₂ (related : List.Forall₂ R xs ys) :
    xs.getLast? = none ∧ ys.getLast? = none ∨
      ∃ x y, xs.getLast? = some x ∧ ys.getLast? = some y ∧ R x y := by
  rw [List.getLast?_eq_head?_reverse, List.getLast?_eq_head?_reverse]
  have reversed := List.forall₂_reverse_iff.mpr related
  generalize xs.reverse = xs', ys.reverse = ys' at reversed
  cases reversed with
  | nil => exact Or.inl ⟨rfl, rfl⟩
  | cons here _ => exact Or.inr ⟨_, _, rfl, rfl, here⟩

end Select

namespace Settings

/-- The settings by name. -/
inductive Field where
  | cells
  | input
  | output
  | frame
  | terminator
  | logFile
  | logLevel
  | snapshot
  deriving DecidableEq, Repr

inductive Value where
  | number (n : Int)
  | text (s : String)
  deriving DecidableEq, Repr

namespace Field

def flag : Field → String
  | .cells => "cells"
  | .input => "in"
  | .output => "out"
  | .frame => "frame"
  | .terminator => "term"
  | .logFile => "log"
  | .logLevel => ""
  | .snapshot => "save"

def key : Field → String
  | .cells => "cells"
  | .input => "input"
  | .output => "output"
  | .frame => "frame"
  | .terminator => "terminator"
  | .logFile => "log-file"
  | .logLevel => "log-level"
  | .snapshot => "snapshot"

def isNumber : Field → Bool
  | .cells | .input | .output => true
  | .frame | .terminator | .logFile | .logLevel | .snapshot => false

/-- The value that the text of a flag stands for. -/
def ofText? (field : Field) (text : String) : Option Value :=
  if field.isNumber then (Text.Integer.parse text).toOption.map .number else some (.text text)

def ofNode? (field : Field) : Toml.Node → Option Value
  | .integer n => if field.isNumber then some (.number n) else none
  | .string s => if field.isNumber then none else some (.text s)
  | .other | .table _ | .tables _ => none

end Field

def get (s : Settings) : Field → Value
  | .cells => .number s.cells
  | .input => .number s.input
  | .output => .number s.output
  | .frame => .text s.frame
  | .terminator => .text s.terminator
  | .logFile => .text s.logFile
  | .logLevel => .text s.logLevel
  | .snapshot => .text s.snapshot

end Settings

namespace Setting

open Settings (Field Value)

def field : Setting → Field
  | .cells _ => .cells
  | .input _ => .input
  | .output _ => .output
  | .frame _ => .frame
  | .terminator _ => .terminator
  | .logFile _ => .logFile
  | .logLevel _ => .logLevel
  | .snapshot _ => .snapshot

def value : Setting → Value
  | .cells n | .input n | .output n => .number n
  | .frame s | .terminator s | .logFile s | .logLevel s | .snapshot s => .text s

end Setting

namespace Settings

variable {s s' : Settings} {field : Field}

theorem get_set (s : Settings) (x : Setting) (field : Field) :
    (s.set x).get field = if x.field = field then x.value else s.get field := by
  cases x <;> cases field <;> rfl

theorem get_setAll (s : Settings) (xs : List Setting) (field : Field) :
    (s.setAll xs).get field =
      (((xs.filter (·.field = field)).getLast?).map Setting.value).getD (s.get field) := by
  induction xs generalizing s with
  | nil => rfl
  | cons x xs ih =>
      have later := ih (s.set x)
      rw [get_set] at later
      rw [setAll, List.foldl_cons]
      refine later.trans ?_
      by_cases named : x.field = field
      · rw [if_pos named, List.filter_cons_of_pos (by simpa using named), List.getLast?_cons]
        cases (xs.filter (·.field = field)).getLast? <;> rfl
      · rw [if_neg named, List.filter_cons_of_neg (by simpa using named)]

theorem ext_get (same : ∀ field, s.get field = s'.get field) : s = s' := by
  have cells := Value.number.inj (same .cells)
  have input := Value.number.inj (same .input)
  have output := Value.number.inj (same .output)
  have frame := Value.text.inj (same .frame)
  have terminator := Value.text.inj (same .terminator)
  have logFile := Value.text.inj (same .logFile)
  have logLevel := Value.text.inj (same .logLevel)
  have snapshot := Value.text.inj (same .snapshot)
  cases s
  cases s'
  simp_all

/-! ## The settings file -/

def nodes (table : Toml.Table) (key : String) : List Toml.Node :=
  (table.reverse.filter fun entry => entry.1.toList.map foldChar = key.toList).map (·.2)

/-- A setting is what the entry of a table says. -/
def Told (entry : String × Toml.Node) (x : Setting) : Prop :=
  x.field.key.toList = entry.1.toList.map foldChar ∧ x.field.ofNode? entry.2 = some x.value

variable {name : String} {node : Toml.Node} {reading : Reading} {x : Setting}

private theorem told_of_mem_keys {entry : String × Reading} (member : entry ∈ keys)
    (read : entry.2.read? node = some x) :
    x.field.key = entry.1 ∧ x.field.ofNode? node = some x.value := by
  simp only [keys, List.mem_cons, List.not_mem_nil, or_false] at member
  rcases member with rfl | rfl | rfl | rfl | rfl | rfl | rfl | rfl <;>
    cases node <;> cases read <;> exact ⟨rfl, rfl⟩

private theorem told_of_read? (known : reading? name = some reading)
    (read : reading.read? node = some x) :
    Told (name, node) x := by
  obtain ⟨entry, found, rfl⟩ := Option.map_eq_some_iff.mp known
  obtain ⟨key, value⟩ := told_of_mem_keys (List.mem_of_find?_eq_some found) read
  refine ⟨?_, value⟩
  rw [key]
  simpa using List.find?_some found

private theorem isSome_reading? (field : Field)
    (spelled : name.toList.map foldChar = field.key.toList) :
    (reading? name).isSome = true := by
  have known : ∃ entry ∈ keys, entry.1 = field.key := by
    cases field <;> simp [keys, Field.key]
  obtain ⟨entry, member, same⟩ := known
  rw [reading?, Option.isSome_map, List.find?_isSome]
  exact ⟨entry, member, by simp [same, spelled]⟩

theorem Field.flag_injective {field field' : Field} (same : field.flag = field'.flag) :
    field = field' := by
  cases field <;> cases field' <;> first | rfl | exact absurd same (by decide)

private theorem Field.key_injective {field field' : Field}
    (same : field.key.toList = field'.key.toList) :
    field = field' := by
  cases field <;> cases field' <;> first | rfl | exact absurd same (by decide +kernel)

private theorem told_of_ofTable? {table : Toml.Table} {xs : List Setting}
    (read : ofTable? table = some xs) :
    List.Forall₂ Told (table.filter fun entry => (reading? entry.1).isSome) xs := by
  induction table generalizing xs with
  | nil =>
      rw [ofTable?, Option.some.injEq] at read
      rw [← read]
      exact .nil
  | cons entry rest ih =>
      obtain ⟨name, node⟩ := entry
      rw [ofTable?] at read
      cases known : reading? name with
      | none =>
          rw [known] at read
          rw [List.filter_cons_of_neg (by simp [known])]
          exact ih read
      | some reading =>
          simp only [known] at read
          rw [List.filter_cons_of_pos (by simp [known])]
          split at read
          case h_1 x xs here later =>
            rw [← Option.some.inj read]
            exact .cons (told_of_read? known here) (ih later)
          case h_2 => exact absurd read nofun

theorem told_of_field {table : Toml.Table} {xs : List Setting}
    (read : ofTable? table.reverse = some xs) (field : Field) :
    List.Forall₂ (fun node x => field.ofNode? node = some (Setting.value x)) (nodes table field.key)
      (xs.filter (·.field = field)) := by
  have known : (table.reverse.filter fun entry => (reading? entry.1).isSome).filter
        (fun entry => entry.1.toList.map foldChar = field.key.toList) =
      table.reverse.filter fun entry => entry.1.toList.map foldChar = field.key.toList := by
    rw [List.filter_filter]
    apply List.filter_congr
    intro entry _
    by_cases spelled : entry.1.toList.map foldChar = field.key.toList
    · simp [spelled, isSome_reading? field spelled]
    · simp [spelled]
  have picked : xs.filterMap (Option.guard (·.field = field)) = xs.filter (·.field = field) := by
    rw [List.filterMap_eq_filter]
  rw [nodes, List.forall₂_map_left_iff, ← known, ← picked]
  refine forall₂_filterMap (told_of_ofTable? read) (fun entry x told spelled => ?_)
    fun entry x told other => ?_
  · have named : x.field = field := Field.key_injective (told.1.trans (of_decide_eq_true spelled))
    refine ⟨x, by simp [named], ?_⟩
    rw [← named]
    exact told.2
  · have named : x.field ≠ field := by
      rintro rfl
      exact of_decide_eq_false other told.1.symm
    simp [named]

end Settings

namespace Command

open Settings (Field Value nodes)

/-! ## What flags say -/

def Switch.flag : Switch → String
  | .list => "list"
  | .dump => "dump"
  | .noRaw => "noraw"
  | .debug => "debug"
  | .trace => "trace"

theorem Switch.flag_injective {s s' : Switch} (same : s.flag = s'.flag) : s = s' := by
  cases s <;> cases s' <;> first | rfl | exact absurd same (by decide)

namespace Occurrence

def flag : Occurrence → String
  | .setting x => x.field.flag
  | .settingsFile _ => "config"
  | .code _ => "e"
  | .resume _ => "resume"
  | .input _ => "with"
  | .switch s _ => s.flag

def IsRead (value : String) : Occurrence → Prop
  | .setting x => x.field.ofText? value = some x.value
  | .settingsFile s | .code s | .resume s | .input s => value = s
  | .switch _ on => truth? value = some on

variable {o : Occurrence}

theorem eq_switch_of_flag {s : Switch} (named : o.flag = s.flag) : ∃ on, o = .switch s on := by
  cases o with
  | switch s' on => exact ⟨on, congrArg (Occurrence.switch · on) (Switch.flag_injective named)⟩
  | setting x => cases x <;> cases s <;> simp [flag, Setting.field, Field.flag, Switch.flag] at named
  | code | resume | settingsFile | input => cases s <;> simp [flag, Switch.flag] at named

theorem eq_setting_of_flag {field : Field} (named : o.flag = field.flag) :
    ∃ x, o = .setting x ∧ x.field = field := by
  cases o with
  | setting x => exact ⟨x, rfl, Field.flag_injective named⟩
  | switch s on => cases s <;> cases field <;> simp [flag, Field.flag, Switch.flag] at named
  | code | resume | settingsFile | input => cases field <;> simp [flag, Field.flag] at named

end Occurrence

/-- The values that are given to a flag, in order. -/
def values (mentions : List Mention) (name : String) : List String :=
  (mentions.filter (·.name = name)).map (·.value)

section Tells

variable {f : Flag} {m : Mention} {o : Occurrence} {value name : String}
  {mentions : List Mention} {occurrences : List Occurrence}

/-- What a flag gives bears the name of the flag: a switch, a setting that is a number, or a text. -/
def Flag.BearsName (f : Flag) : Prop :=
  match f.kind with
  | .switch s => s.flag = f.name
  | .number give => ∀ n, ∃ x, give n = .setting x ∧ x.field.flag = f.name ∧ x.field.isNumber = true ∧
      x.value = .number n
  | .text _ give => ∀ value, (give value).flag = f.name ∧ (give value).IsRead value

private theorem bearsName_of_mem_flags (member : f ∈ flags) : f.BearsName := by
  simp only [flags, List.mem_cons, List.not_mem_nil, or_false] at member
  -- In turn: a switch, a number, a text.
  rcases member with rfl | rfl | rfl | rfl | rfl | rfl | rfl | rfl | rfl | rfl | rfl | rfl | rfl |
    rfl | rfl | rfl <;>
    first
      | rfl
      | exact fun n => ⟨_, rfl, rfl, rfl, rfl⟩
      | exact fun value => ⟨rfl, rfl⟩

private theorem tells_of_occur (member : f ∈ flags) (occurs : f.occur value = .ok o) :
    o.flag = f.name ∧ o.IsRead value := by
  have named := bearsName_of_mem_flags member
  unfold Flag.BearsName at named
  unfold Flag.occur at occurs
  cases kind : f.kind with
  | switch s =>
      simp only [kind] at named occurs
      split at occurs
      case h_1 on read =>
        rw [← Except.ok.inj occurs]
        exact ⟨named, read⟩
      case h_2 => exact absurd occurs nofun
  | number give =>
      simp only [kind] at named occurs
      split at occurs
      case h_1 n read =>
        obtain ⟨x, given, flag, number, same⟩ := named n
        rw [← Except.ok.inj occurs, given]
        refine ⟨flag, ?_⟩
        rw [Occurrence.IsRead, Field.ofText?, if_pos number, read, same]
        rfl
      case h_2 => exact absurd occurs nofun
  | text argument give =>
      simp only [kind] at named occurs
      rw [← Except.ok.inj occurs]
      exact named value

theorem Mention.Means.tells (means : m.Means o) : o.flag = m.name ∧ o.IsRead m.value := by
  obtain ⟨f, known, occurs⟩ := means
  obtain ⟨member, named⟩ := mem_flags_of_flag? known
  rw [← named]
  exact tells_of_occur member occurs

theorem Mention.Means.eq_give {argument help : String} {give : String → Occurrence}
    {standard : Option String} (means : m.Means o)
    (known : flag? m.name = some ⟨name, .text argument give, help, standard⟩) : o = give m.value := by
  obtain ⟨f, known', occurs⟩ := means
  rw [known, Option.some.injEq] at known'
  subst known'
  exact (Except.ok.inj occurs).symm

theorem forall₂_values {γ : Type} {pick : Occurrence → Option γ} {S : String → γ → Prop}
    (meaning : List.Forall₂ Mention.Means mentions occurrences)
    (picks : ∀ o value, o.flag = name → o.IsRead value → ∃ z, pick o = some z ∧ S value z)
    (skips : ∀ o, o.flag ≠ name → pick o = none) :
    List.Forall₂ S (values mentions name) (occurrences.filterMap pick) := by
  rw [values, List.forall₂_map_left_iff]
  refine forall₂_filterMap meaning (fun m o means named => ?_) fun m o means other => ?_
  · obtain ⟨flag, read⟩ := means.tells
    exact picks o m.value (flag.trans (of_decide_eq_true named)) read
  · obtain ⟨flag, _⟩ := means.tells
    exact skips o (flag ▸ of_decide_eq_false other)

end Tells

end Command

end TapeMachine
