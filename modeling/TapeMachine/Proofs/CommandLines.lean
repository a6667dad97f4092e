import Mathlib.Data.List.Forall2
import Mathlib.Data.List.TakeDrop
import Mathlib.Data.List.TakeWhile
import TapeMachine.Command.Flag
/-!
# Command lines

How flags are written on a command line and where they end. What is read off a command line are the
flags that are written there, in order, each with the text of its value, and what follows them.
-/

set_option autoImplicit false
set_option relaxedAutoImplicit false

namespace TapeMachine.Command

def switchNames : List String := ["debug", "dump", "list", "noraw", "trace"]

/-- A flag with the text of its value, and the arguments that it takes up on a command line. -/
structure Mention where
  name : String
  value : String
  arguments : List String
  deriving DecidableEq, Repr

/-- How a flag and its value are written: with one dash or two, the value after an equals sign or as an
argument of its own. A switch that stands alone is on. -/
inductive Spells (name value : String) : List String → Prop
  | joined {dashes : String} (known : dashes ∈ ["-", "--"]) :
    Spells name value [dashes ++ name ++ "=" ++ value]
  | apart {dashes : String} (known : dashes ∈ ["-", "--"]) (valued : name ∉ switchNames) :
    Spells name value [dashes ++ name, value]
  | alone {dashes : String} (known : dashes ∈ ["-", "--"]) (switch : name ∈ switchNames)
    (on : value = "true") : Spells name value [dashes ++ name]

/-- Where flags end: at the end, after two dashes alone, or at an argument that is no flag. The second
list are the arguments that are no flags. -/
inductive Rest : List String → List String → Prop
  | nothing : Rest [] []
  | stop (operands : List String) : Rest ("--" :: operands) operands
  | plain {first : String} (bare : first = "-" ∨ first.toList.head? ≠ some '-')
    (operands : List String) : Rest (first :: operands) (first :: operands)

/-- A command line is made of flags and what follows them. -/
structure Consists (arguments : List String) (mentions : List Mention)
    (tail operands : List String) : Prop where
  parts : arguments = mentions.flatMap (·.arguments) ++ tail
  known : ∀ m ∈ mentions, m.name ∈ flags.map Flag.name
  spelled : ∀ m ∈ mentions, Spells m.name m.value m.arguments
  ends : Rest tail operands

def Mention.Means (m : Mention) (o : Occurrence) : Prop :=
  ∃ f, flag? m.name = some f ∧ f.occur m.value = .ok o

/-! ## Single arguments -/

section Argument

/-- A name that is not taken for something else. -/
def Proper (name : String) : Prop :=
  ∃ c rest, name.toList = c :: rest ∧ c ≠ '-' ∧ '=' ∉ c :: rest

variable {name value s : String} {given : Option String} {dashes : String} {chars : List Char}

private theorem proper_of_mem_flags {f : Flag} (member : f ∈ flags) : Proper f.name := by
  have names : ∀ f ∈ flags, f.name.toList.head?.any (· ≠ '-') = true ∧ '=' ∉ f.name.toList := by
    decide +kernel
  obtain ⟨start, body⟩ := names f member
  cases chars : f.name.toList with
  | nil => simp [chars] at start
  | cons c rest =>
      rw [chars] at start body
      exact ⟨c, rest, chars, by simpa using start, body⟩

def valuePart : Option String → List Char
  | none => []
  | some value => '=' :: value.toList

private theorem splitValue_cons (c : Char) {rest : List Char} (body : '=' ∉ rest)
    (given : Option String) :
    splitValue (c :: (rest ++ valuePart given)) = (String.ofList (c :: rest), given) := by
  have inside : ∀ d ∈ rest, decide (d ≠ '=') = true := by
    intro d member
    exact decide_eq_true fun equal => body (equal ▸ member)
  rw [splitValue, List.span_eq_takeWhile_dropWhile, List.takeWhile_append_of_pos inside,
    List.dropWhile_append_of_pos inside]
  cases given with
  | none => simp [valuePart]
  | some value => simp [valuePart]

private theorem exists_valuePart (chars : List Char) :
    ∃ rest given, '=' ∉ rest ∧ chars = rest ++ valuePart given := by
  have parts := List.takeWhile_append_dropWhile (p := (· ≠ '=')) (l := chars)
  have body : '=' ∉ chars.takeWhile (· ≠ '=') := by
    intro member
    simpa using List.mem_takeWhile_imp member
  cases left : chars.dropWhile (· ≠ '=') with
  | nil => exact ⟨_, none, body, by rw [valuePart, ← left, parts]⟩
  | cons d value =>
      have first := List.head?_dropWhile_not (· ≠ '=') chars
      rw [left] at first
      obtain rfl : d = '=' := by simpa using first
      exact ⟨_, some (String.ofList value), body, by
        rw [valuePart, String.toList_ofList, ← left, parts]⟩

private theorem ofName_eq_flag_iff : Argument.ofName chars = .flag name given ↔
    Proper name ∧ chars = name.toList ++ valuePart given := by
  constructor
  · intro read
    cases chars with
    | nil => exact absurd read nofun
    | cons c rest =>
        obtain ⟨more, given', body, rfl⟩ := exists_valuePart rest
        rw [Argument.ofName, splitValue_cons c body] at read
        split at read
        case isTrue => exact absurd read nofun
        case isFalse start =>
          simp only [Bool.or_eq_true, decide_eq_true_eq, not_or] at start
          obtain ⟨rfl, rfl⟩ := Argument.flag.inj read
          refine ⟨⟨c, more, String.toList_ofList, start.1, ?_⟩, by rw [String.toList_ofList]; rfl⟩
          simpa [Ne.symm start.2] using body
  · rintro ⟨⟨c, more, text, dash, body⟩, rfl⟩
    obtain ⟨first, body⟩ := not_or.mp (mt List.mem_cons.mpr body)
    have start : (c = '-' || c = '=') = false := by simp [dash, Ne.symm first]
    rw [text, List.cons_append, Argument.ofName, splitValue_cons c body, ← text,
      String.ofList_toList]
    simp only [start, Bool.false_eq_true, if_false]

private theorem ofString_of_dash {c : Char} (text : s.toList = '-' :: c :: chars) (other : c ≠ '-') :
    Argument.ofString s = .ofName (c :: chars) := by
  unfold Argument.ofString
  rw [text]
  split <;> simp_all

private theorem ofString_of_dashes {c : Char} (text : s.toList = '-' :: '-' :: c :: chars) :
    Argument.ofString s = .ofName (c :: chars) := by
  unfold Argument.ofString
  rw [text]
  rfl

private theorem ofString_eq_flag_iff : Argument.ofString s = .flag name given ↔
    ∃ dashes ∈ ["-", "--"], Proper name ∧
      s.toList = dashes.toList ++ (name.toList ++ valuePart given) := by
  constructor
  · intro read
    unfold Argument.ofString at read
    split at read
    case h_2 chars text =>
      obtain ⟨proper, rfl⟩ := ofName_eq_flag_iff.mp read
      exact ⟨"--", by simp, proper, text⟩
    case h_4 chars _ _ text =>
      obtain ⟨proper, rfl⟩ := ofName_eq_flag_iff.mp read
      exact ⟨"-", by simp, proper, text⟩
    all_goals exact absurd read nofun
  · rintro ⟨dashes, known, proper, text⟩
    have read : Argument.ofName (name.toList ++ valuePart given) = .flag name given :=
      ofName_eq_flag_iff.mpr ⟨proper, rfl⟩
    obtain ⟨c, more, chars, dash, _⟩ := proper
    rw [chars, List.cons_append] at text read
    rcases List.mem_pair.mp known with rfl | rfl
    · rw [ofString_of_dash text dash, read]
    · rw [ofString_of_dashes text, read]

private theorem ofName_ne (chars : List Char) :
    Argument.ofName chars ≠ .plain ∧ Argument.ofName chars ≠ .stop := by
  unfold Argument.ofName
  split
  · exact ⟨nofun, nofun⟩
  · split
    · exact ⟨nofun, nofun⟩
    · exact ⟨nofun, nofun⟩

private theorem ofString_eq_plain_iff :
    Argument.ofString s = .plain ↔ s = "-" ∨ s.toList.head? ≠ some '-' := by
  constructor
  · intro read
    unfold Argument.ofString at read
    split at read
    case h_1 => exact absurd read nofun
    case h_2 | h_4 => exact absurd read (ofName_ne _).1
    case h_3 text => exact Or.inl (String.toList_inj.mp text)
    case h_5 no_dash =>
      refine Or.inr fun dash => ?_
      obtain ⟨rest, text⟩ := List.head?_eq_some_iff.mp dash
      exact no_dash rest text
  · rintro (rfl | bare)
    · decide +kernel
    · unfold Argument.ofString
      split <;> simp_all

private theorem ofString_eq_stop_iff : Argument.ofString s = .stop ↔ s = "--" := by
  constructor
  · intro read
    unfold Argument.ofString at read
    split at read
    case h_1 text => exact String.toList_inj.mp text
    case h_2 | h_4 => exact absurd read (ofName_ne _).2
    all_goals exact absurd read nofun
  · rintro rfl
    decide +kernel

end Argument

/-! ## Whole command lines -/

section Read

variable {m : Mention} {o : Occurrence} {f : Flag} {name : String} {arguments tail operands : List String}
  {mentions : List Mention} {occurrences : List Occurrence}

theorem mem_flags_of_flag? (known : flag? name = some f) : f ∈ flags ∧ f.name = name := by
  refine ⟨List.mem_of_find?_eq_some known, ?_⟩
  simpa using List.find?_some known

private theorem proper_of_flag? (known : flag? name = some f) : Proper name := by
  obtain ⟨member, rfl⟩ := mem_flags_of_flag? known
  exact proper_of_mem_flags member

private theorem takesNext_eq_false_iff (known : flag? name = some f) :
    f.takesNext = false ↔ name ∈ switchNames := by
  have names : ∀ f ∈ flags, f.takesNext = false ↔ f.name ∈ switchNames := by
    decide +kernel
  obtain ⟨member, rfl⟩ := mem_flags_of_flag? known
  exact names f member

private theorem ofString_dashed {dashes : String} (dashed : dashes ∈ ["-", "--"])
    (proper : Proper name) (value : String) :
    Argument.ofString (dashes ++ name) = .flag name none ∧
      Argument.ofString (dashes ++ name ++ "=" ++ value) = .flag name (some value) := by
  constructor
  · refine ofString_eq_flag_iff.mpr ⟨dashes, dashed, proper, ?_⟩
    rw [String.toList_append, valuePart, List.append_nil]
  · refine ofString_eq_flag_iff.mpr ⟨dashes, dashed, proper, ?_⟩
    simp [String.toList_append, valuePart]

theorem readFlags_append (spelled : Spells m.name m.value m.arguments) (known : flag? m.name = some f)
    (rest : List String) :
    (∀ o, f.occur m.value = .ok o → readFlags (m.arguments ++ rest) = prepend o (readFlags rest)) ∧
      ∀ e, f.occur m.value = .error e → readFlags (m.arguments ++ rest) = .error e := by
  obtain ⟨name, value, arguments⟩ := m
  simp only at known spelled ⊢
  have proper := proper_of_flag? known
  cases spelled with
  | joined dashed =>
      have argument := (ofString_dashed dashed proper value).2
      constructor <;> intro _ occurs <;>
        simp only [List.singleton_append, readFlags, argument, known, occurs]
  | apart dashed valued =>
      have argument := (ofString_dashed dashed proper value).1
      have next : f.takesNext = true := by
        rw [← Bool.not_eq_false]
        exact mt (takesNext_eq_false_iff known).mp valued
      constructor <;> intro _ occurs <;>
        simp only [List.cons_append, List.nil_append, readFlags, argument, known, next, occurs, if_true]
  | alone dashed switch on =>
      subst on
      have argument := (ofString_dashed dashed proper "").1
      have last := (takesNext_eq_false_iff known).mpr switch
      constructor <;> intro _ occurs <;>
        simp only [List.singleton_append, readFlags, argument, known, last, occurs, Bool.false_eq_true,
          if_false]

private theorem readFlags_rest (ends : Rest tail operands) : readFlags tail = .ok ([], operands) := by
  cases ends with
  | nothing => rfl
  | stop => simp only [readFlags, ofString_eq_stop_iff.mpr]
  | plain bare => simp only [readFlags, ofString_eq_plain_iff.mpr bare]

theorem readFlags_of_consists (consists : Consists arguments mentions tail operands)
    (meaning : List.Forall₂ Mention.Means mentions occurrences) :
    readFlags arguments = .ok (occurrences, operands) := by
  obtain ⟨rfl, -, spelled, ends⟩ := consists
  induction meaning with
  | nil => exact readFlags_rest ends
  | @cons m o mentions occurrences means _ ih =>
      obtain ⟨f, known, occurs⟩ := means
      have later := ih fun m member => spelled m (List.mem_cons_of_mem _ member)
      rw [List.flatMap_cons, List.append_assoc,
        (readFlags_append (spelled m List.mem_cons_self) known _).1 o occurs, later, prepend]

private theorem exists_flag? (known : name ∈ flags.map Flag.name) : ∃ f, flag? name = some f := by
  obtain ⟨f, member, named⟩ := List.mem_map.mp known
  rw [← Option.isSome_iff_exists, flag?, List.find?_isSome]
  exact ⟨f, member, decide_eq_true named⟩

theorem means_of_consists {rest : List String} (consists : Consists arguments mentions tail operands)
    (read : readFlags arguments = .ok (occurrences, rest)) :
    rest = operands ∧ List.Forall₂ Mention.Means mentions occurrences := by
  obtain ⟨rfl, known, spelled, ends⟩ := consists
  induction mentions generalizing occurrences with
  | nil =>
      rw [List.flatMap_nil, List.nil_append, readFlags_rest ends, Except.ok.injEq, Prod.mk.injEq] at read
      obtain ⟨rfl, rfl⟩ := read
      exact ⟨rfl, .nil⟩
  | cons m mentions ih =>
      obtain ⟨f, found⟩ := exists_flag? (known m List.mem_cons_self)
      rw [List.flatMap_cons, List.append_assoc] at read
      obtain ⟨accepted, refused⟩ := readFlags_append (spelled m List.mem_cons_self) found
        (mentions.flatMap (·.arguments) ++ tail)
      cases occurs : f.occur m.value with
      | error e => exact absurd ((refused e occurs).symm.trans read) nofun
      | ok o =>
          rw [accepted o occurs] at read
          cases later : readFlags (mentions.flatMap (·.arguments) ++ tail) with
          | error e => simp [later, prepend] at read
          | ok answer =>
              obtain ⟨others, rest'⟩ := answer
              rw [later, prepend, Except.ok.injEq, Prod.mk.injEq] at read
              obtain ⟨rfl, rfl⟩ := read
              obtain ⟨same, meaning⟩ := ih (fun m member => known m (List.mem_cons_of_mem _ member))
                (fun m member => spelled m (List.mem_cons_of_mem _ member)) later
              exact ⟨same, .cons ⟨f, found, occurs⟩ meaning⟩

theorem Mention.Means.known (means : m.Means o) : m.name ∈ flags.map Flag.name := by
  obtain ⟨f, known, _⟩ := means
  obtain ⟨member, same⟩ := mem_flags_of_flag? known
  exact List.mem_map.mpr ⟨f, member, same⟩

private theorem Consists.cons (consists : Consists arguments mentions tail operands)
    (spelled : Spells m.name m.value m.arguments) (means : m.Means o) :
    Consists (m.arguments ++ arguments) (m :: mentions) tail operands where
  parts := by rw [consists.parts, List.flatMap_cons, List.append_assoc]
  known := List.forall_mem_cons.mpr ⟨means.known, consists.known⟩
  spelled := List.forall_mem_cons.mpr ⟨spelled, consists.spelled⟩
  ends := consists.ends

private theorem exists_dashed {s : String} :
    (Argument.ofString s = .flag name none → ∃ dashes ∈ ["-", "--"], s = dashes ++ name) ∧
      ∀ value, Argument.ofString s = .flag name (some value) →
        ∃ dashes ∈ ["-", "--"], s = dashes ++ name ++ "=" ++ value := by
  refine ⟨fun read => ?_, fun value read => ?_⟩
  · obtain ⟨dashes, dashed, _, text⟩ := ofString_eq_flag_iff.mp read
    refine ⟨dashes, dashed, String.toList_inj.mp ?_⟩
    rw [text, String.toList_append, valuePart, List.append_nil]
  · obtain ⟨dashes, dashed, _, text⟩ := ofString_eq_flag_iff.mp read
    refine ⟨dashes, dashed, String.toList_inj.mp ?_⟩
    simp [text, String.toList_append, valuePart]

private theorem exists_consists_of_prepend {rest : List String}
    (spelled : Spells m.name m.value m.arguments)
    (means : m.Means o) (read : prepend o (readFlags rest) = .ok (occurrences, operands))
    (later : ∀ occurrences, readFlags rest = .ok (occurrences, operands) →
      ∃ mentions tail, Consists rest mentions tail operands ∧
        List.Forall₂ Mention.Means mentions occurrences) :
    ∃ mentions tail, Consists (m.arguments ++ rest) mentions tail operands ∧
      List.Forall₂ Mention.Means mentions occurrences := by
  cases known : readFlags rest with
  | error e =>
      rw [known] at read
      exact absurd read nofun
  | ok answer =>
      obtain ⟨others, last⟩ := answer
      rw [known, prepend, Except.ok.injEq, Prod.mk.injEq] at read
      obtain ⟨rfl, rfl⟩ := read
      obtain ⟨mentions, tail, consists, meaning⟩ := later others known
      exact ⟨m :: mentions, tail, consists.cons spelled means, .cons means meaning⟩

/-- A command line whose flags can be read is made of them, with what follows them. -/
theorem exists_consists_of_readFlags (read : readFlags arguments = .ok (occurrences, operands)) :
    ∃ mentions tail, Consists arguments mentions tail operands ∧
      List.Forall₂ Mention.Means mentions occurrences := by
  fun_induction readFlags arguments generalizing occurrences with
  | case1 =>
      rw [Except.ok.injEq, Prod.mk.injEq] at read
      obtain ⟨rfl, rfl⟩ := read
      exact ⟨[], [], ⟨rfl, nofun, nofun, .nothing⟩, .nil⟩
  | case2 s rest plain =>
      rw [Except.ok.injEq, Prod.mk.injEq] at read
      obtain ⟨rfl, rfl⟩ := read
      exact ⟨[], s :: rest, ⟨rfl, nofun, nofun, .plain (ofString_eq_plain_iff.mp plain) rest⟩, .nil⟩
  | case3 s rest stop =>
      rw [Except.ok.injEq, Prod.mk.injEq] at read
      obtain ⟨rfl, rfl⟩ := read
      obtain rfl := ofString_eq_stop_iff.mp stop
      exact ⟨[], "--" :: rest, ⟨rfl, nofun, nofun, .stop rest⟩, .nil⟩
  | case6 s rest name f known value o occurs flag ih =>
      obtain ⟨dashes, dashed, rfl⟩ := exists_dashed.2 value flag
      exact exists_consists_of_prepend (m := ⟨name, value, [dashes ++ name ++ "=" ++ value]⟩)
        (.joined dashed) ⟨f, known, occurs⟩ read fun _ => ih
  | case9 s name f known next value rest o occurs flag ih =>
      obtain ⟨dashes, dashed, rfl⟩ := exists_dashed.1 flag
      have valued : name ∉ switchNames := by
        rw [← takesNext_eq_false_iff known, next]
        exact nofun
      exact exists_consists_of_prepend (m := ⟨name, value, [dashes ++ name, value]⟩)
        (.apart dashed valued) ⟨f, known, occurs⟩ read fun _ => ih
  | case11 s rest name f known last o occurs flag ih =>
      obtain ⟨dashes, dashed, rfl⟩ := exists_dashed.1 flag
      have switch : name ∈ switchNames := by
        rw [← takesNext_eq_false_iff known]
        exact Bool.eq_false_iff.mpr last
      exact exists_consists_of_prepend (m := ⟨name, "true", [dashes ++ name]⟩)
        (.alone dashed switch rfl) ⟨f, known, occurs⟩ read fun _ => ih
  | case4 | case5 | case7 | case8 | case10 | case12 => exact absurd read nofun

end Read

end TapeMachine.Command
