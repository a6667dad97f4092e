import TapeMachine.Command.Invocation
import TapeMachine.Proofs.Codec
import TapeMachine.Proofs.Listings
import TapeMachine.Proofs.Origins
/-!
# Listing instead of running

A flag that lists the program leaves everything else on a command line as it is. What is listed is the
program of the machine that would run, if that machine is built from a program. Where a saved machine
would go on nothing is listed: listing does not look at it.
-/

set_option autoImplicit false
set_option relaxedAutoImplicit false

namespace TapeMachine.Command

variable {files : Files} {arguments arguments' : List String} {o : Options} {m : Machine} {s : Session}
  {name : String} {program : List UInt8}

/-- Among the flags of a command line one is put that lists the program, and no later one takes it
back. -/
inductive ListAdded (arguments : List String) : List String → Prop
  | among {before after : List Mention} {tail operands : List String}
    (consists : Consists arguments (before ++ after) tail operands)
    (last : ∀ m ∈ after, m.name ≠ Switch.list.flag) :
    ListAdded arguments
      (before.flatMap (·.arguments) ++ "-list" :: (after.flatMap (·.arguments) ++ tail))

/-! ## The command line -/

def listMention : Mention := ⟨"list", "true", ["-list"]⟩

private theorem spells_listMention :
    Spells listMention.name listMention.value listMention.arguments := by
  have switch : "list" ∈ switchNames := by decide
  exact .alone List.mem_cons_self switch rfl

private theorem means_listMention : listMention.Means (.switch .list true) := ⟨_, rfl, rfl⟩

private theorem Consists.insert {before after : List Mention} {tail operands : List String}
    (consists : Consists arguments (before ++ after) tail operands) :
    Consists (before.flatMap (·.arguments) ++ "-list" :: (after.flatMap (·.arguments) ++ tail))
      (before ++ listMention :: after) tail operands where
  parts := by simp [listMention]
  known := by
    have known := consists.known
    simp only [List.forall_mem_append, List.forall_mem_cons] at known ⊢
    exact ⟨known.1, means_listMention.known, known.2⟩
  spelled := by
    have spelled := consists.spelled
    simp only [List.forall_mem_append, List.forall_mem_cons] at spelled ⊢
    exact ⟨spelled.1, spells_listMention, spelled.2⟩
  ends := consists.ends

private theorem values_insert (before after : List Mention) (other : name ≠ Switch.list.flag) :
    values (before ++ after) name = values (before ++ listMention :: after) name := by
  have unnamed : ¬ listMention.name = name := Ne.symm other
  simp [values, unnamed]

private theorem parse_of_listAdded (parsed : parse files arguments = .ok o)
    (added : ListAdded arguments arguments') : parse files arguments' = .ok { o with list := true } := by
  obtain @⟨before, after, tail, operands, consists, last⟩ := added
  obtain ⟨occurrences, meaning, resolves⟩ := exists_resolves consists parsed
  obtain ⟨occurrences', meaning', -⟩ :=
    List.perm_comp_forall₂ List.perm_middle (.cons means_listMention meaning)
  have none_later : after.filter (·.name = Switch.list.flag) = [] := by
    rw [List.filter_eq_nil_iff]
    intro m member named
    exact last m member (of_decide_eq_true named)
  have listed : isOn occurrences' .list = true := by
    rw [isOn_iff meaning']
    refine ⟨"true", ?_, by decide⟩
    rw [values, List.filter_append, List.filter_cons_of_pos rfl, none_later]
    simp [listMention]
  have same : Resolves files occurrences' operands { o with list := isOn occurrences' .list } :=
    resolves.of_values meaning meaning' fun _ other => values_insert before after other
  rw [listed] at same
  exact parse_eq_ok_iff.mpr ⟨occurrences', operands, readFlags_of_consists consists.insert meaning', same⟩

/-! ## The program -/

private theorem exists_loadProgram (built : buildMachine files o = .ok m)
    (fresh : ∀ name, o.origin ≠ .snapshot name) :
    ∃ jumps, loadProgram files o.origin = .ok m.program.toList ∧
      link m.program.toList = .ok jumps := by
  obtain ⟨program, jumps, blank, loaded, linked, _, rfl⟩ := (buildMachine_fresh_iff fresh).mp built
  exact ⟨jumps, loaded, linked⟩

theorem list_of_loadProgram {jumps : JumpTable} (loaded : loadProgram s.files o.origin = .ok program)
    (linked : link program = .ok jumps) (unlimited : s.output.room = none) :
    ∃ text output, Listing.text program = .ok text ∧
      s.list o = { s with output := output, failure := none } ∧
      output.accepted.toList = s.output.accepted.toList ++ text := by
  obtain ⟨w, wrote, accepted⟩ := Listing.write_unlimited linked unlimited
  refine ⟨_, w.sink, Listing.text_eq_of_link linked, ?_, accepted⟩
  simp only [Session.list, loaded, wrote, Option.map_none]

theorem list_of_snapshot (saved : o.origin = .snapshot name) : s.list o = { s with failure := none } := by
  have loaded : loadProgram s.files o.origin = .ok [] := by
    rw [saved]
    rfl
  have linked : link [] = .ok #[] := by decide
  obtain ⟨answer, wrote, fine⟩ := Listing.write_eq_of_link linked (.sink s.output)
  obtain rfl := fine rfl
  simp only [Session.list, loaded, wrote]
  rfl

/-- The flag that lists the program leaves the rest of a command line as it is. If the machine of the
session is built from a program, the session writes the listing of that program and ends without a
failure; if it is a saved machine, the session ends in the same way, but writes nothing. -/
theorem list_shows_what_runs (files : Files) (arguments arguments' : List String) (o : Options)
    (parsed : parse files arguments = .ok o) (added : ListAdded arguments arguments') :
    parse files arguments' = .ok { o with list := true } ∧
      ∀ (s : Session) (input : Source) (raw : Bool) (fuel : Nat), s.output.room = none →
        (∀ m, buildMachine s.files o = .ok m → (∀ name, o.origin ≠ .snapshot name) →
          ∃ text output, Listing.text m.program.toList = .ok text ∧
            s.run { o with list := true } input raw fuel =
              some { s with output := output, failure := none } ∧
            output.accepted.toList = s.output.accepted.toList ++ text) ∧
        ∀ name, o.origin = .snapshot name →
          s.run { o with list := true } input raw fuel = some { s with failure := none } := by
  refine ⟨parse_of_listAdded parsed added, fun s input raw fuel unlimited => ⟨?_, ?_⟩⟩
  · intro m built fresh
    obtain ⟨jumps, loaded, linked⟩ := exists_loadProgram built fresh
    obtain ⟨text, output, listing, listed, accepted⟩ :=
      list_of_loadProgram (o := { o with list := true }) loaded linked unlimited
    exact ⟨text, output, listing, congrArg some listed, accepted⟩
  · intro name saved
    have listed := list_of_snapshot (s := s) (o := { o with list := true }) saved
    exact congrArg some listed

/-- A program text that is listed, before and after the flag that gives it. -/
theorem list_shows_what_runs_text : ∃ o m output,
    parse .empty ["-e", "+[-]"] = .ok o ∧ parse .empty ["-e", "+[-]", "-list"] = .ok { o with list := true } ∧
    buildMachine .empty o = .ok m ∧ m.program = #[43, 91, 45, 93] ∧
    Session.run ⟨.empty, .unlimited, .unlimited, none, none⟩ { o with list := true } (.ofBytes []) false 0 =
      some ⟨.empty, output, .unlimited, none, none⟩ ∧
    output.accepted.toList = Text.bytes
      "         0\tinc\n         1\topen 3\n         2\tdec\n         3\tclose 1\n" := by
  have parsed : parse .empty ["-e", "+[-]"] = .ok
      ⟨Settings.standard, .lines, 0, .text "+[-]", [], false, false, false, false, false⟩ := by
    decide +kernel
  have consists : Consists ["-e", "+[-]"] ([⟨"e", "+[-]", ["-e", "+[-]"]⟩] ++ []) [] [] := by
    refine ⟨rfl, by decide, ?_, .nothing⟩
    intro m member
    rw [List.append_nil, List.mem_singleton] at member
    subst member
    exact .apart List.mem_cons_self (by decide)
  obtain ⟨reparsed, run⟩ :=
    list_shows_what_runs .empty _ ["-e", "+[-]", "-list"] _ parsed (.among consists nofun)
  obtain ⟨m, built, program⟩ : ∃ m, buildMachine .empty
      ⟨Settings.standard, .lines, 0, .text "+[-]", [], false, false, false, false, false⟩ = .ok m ∧
        m.program = #[43, 91, 45, 93] :=
    ⟨_, rfl, rfl⟩
  obtain ⟨text, output, listing, ran, accepted⟩ :=
    (run ⟨.empty, .unlimited, .unlimited, none, none⟩ (.ofBytes []) false 0 rfl).1 m built nofun
  have known : Listing.text [43, 91, 45, 93] = .ok (Text.bytes
      "         0\tinc\n         1\topen 3\n         2\tdec\n         3\tclose 1\n") := by
    decide +kernel
  rw [program, known, Except.ok.injEq] at listing
  refine ⟨_, m, output, parsed, reparsed, built, program, ran, ?_⟩
  rw [accepted, listing]
  rfl

/-- A saved machine is not listed, although it has a program that would run. -/
theorem saved_machine_is_not_listed : ∃ files o m,
    parse files ["-resume", "x"] = .ok o ∧
    parse files ["-resume", "x", "-list"] = .ok { o with list := true } ∧
    buildMachine files o = .ok m ∧
    Listing.text m.program.toList = .ok (Text.bytes "         0\tin\n         1\tout\n") ∧
    ∀ (fuel : Nat) (input : Source) (raw : Bool),
      invoke fuel ["-resume", "x", "-list"] files input raw = some ⟨0, [], [], files⟩ := by
  let img : Image := ⟨some [44, 46], 0, 0, 0, some [0], none, none, 1, 1, 0⟩
  let files : Files := ⟨[(["x"], .file img.encode)]⟩
  let o : Options :=
    ⟨Settings.standard, .lines, 0, .snapshot "x", [], false, false, false, false, false⟩
  let m := (Machine.ofSizes ⟨1, 1, 1, by decide, by decide, by decide⟩).loaded [44, 46] #[none, none]
  have loaded : Image.load files "x" = .ok img := by
    have opened : files.openSource "x" = .ok ⟨img.encode ++ [], none⟩ := rfl
    have read := Image.decode_encode img ⟨by decide, by decide, by decide, by decide⟩ [] none
    have plain : Image.isCompressed "x" = false := by decide
    simp only [Image.load, opened, plain, Bool.false_eq_true, if_false, read]
    rfl
  have built : buildMachine files o = .ok m :=
    (buildMachine_saved_iff rfl).mpr ⟨img, _, loaded, rfl, rfl⟩
  have parsed : parse files ["-resume", "x", "-list"] = .ok { o with list := true } := by
    decide +kernel
  refine ⟨files, o, m, by decide +kernel, parsed, built, by decide +kernel, fun fuel input raw => ?_⟩
  have started : Session.start files .unlimited { o with list := true } =
      .ok ⟨files, .unlimited, .unlimited, none, none⟩ := rfl
  have listed := list_of_snapshot (s := ⟨files, .unlimited, .unlimited, none, none⟩)
    (o := { o with list := true }) rfl
  simp only [invoke, parsed, started, Session.run, listed, if_true]
  rfl

end TapeMachine.Command
