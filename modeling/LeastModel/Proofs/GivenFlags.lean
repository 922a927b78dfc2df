import LeastModel.Command.Task
import LeastModel.Proofs.Relation
import Mathlib.Data.List.Forall2

/-!
# The flags that are given

`flagsGiven` lists the flags of a command line by name, each with its value as
it is written. What a value of each flag decides is said flag by flag
(`Decides`), and reading a command line gives the decisions of the flags that
are given, in order (`decides_of_readFlags`). So what the last decision on a
matter is can be told from the last value that its flag is given
(`getLast?_filterMap_of_decides`).
-/

namespace LeastModel.Command

/-! ## Flags and values as they are written -/

/-- Whether the flag of a name may stand without a value, and then says yes. -/
def isSwitch (name : Bytes) : Bool :=
  match findFlag name with
  | .ok ⟨_, .truth _, _⟩ => true
  | _ => false

/-- The flags in front of the arguments, each with its value. -/
def flagsGiven : (arguments : List Bytes) → List (Bytes × Bytes)
  | [] => []
  | argument :: rest =>
    match Argument.of argument with
    | .flag name (some value) => (name, value) :: flagsGiven rest
    | .flag name none =>
      if isSwitch name then (name, "true") :: flagsGiven rest
      else
        match rest with
        | [] => []
        | value :: rest => (name, value) :: flagsGiven rest
    | _ => []

/-- The value that a flag is given last; none if it is not given. -/
def lastGiven (given : List (Bytes × Bytes)) (name : Bytes) : Option Bytes :=
  given.reverse.lookup name

/-- An integer as it is written on the command line. -/
def integer? (value : Bytes) : Option Int := (Number.signed (Utf8.decode value)).toOption

/-- What the flag of a name decides with a value. -/
inductive Decides : (name value : Bytes) → Choice → Prop
  | config (path : Bytes) : Decides "config" path (.config path)
  | dump {value : Bytes} {b : Bool} (h : truth? value = some b) :
      Decides "dump" value (.dump b)
  | list {value : Bytes} {b : Bool} (h : truth? value = some b) :
      Decides "list" value (.list b)
  | load {value : Bytes} {b : Bool} (h : truth? value = some b) :
      Decides "load" value (.load b)
  | format (name : Bytes) : Decides "format" name (.setting (.format name))
  | verbose {value : Bytes} {b : Bool} (h : truth? value = some b) :
      Decides "verbose" value (.setting (.verbose b))
  | store (directory : Bytes) : Decides "store" directory (.setting (.store directory))
  | graph {value : Bytes} {b : Bool} (h : truth? value = some b) :
      Decides "graph" value (.setting (.graph b))
  | maxPasses {value : Bytes} {n : Int} (h : integer? value = some n) :
      Decides "max-passes" value (.setting (.maxPasses n))
  /-- The flag says what not to do, the setting what to do. -/
  | noValidate {value : Bytes} {b : Bool} (h : truth? value = some b) :
      Decides "no-validate" value (.setting (.validateRules !b))
  | traceJoins {value : Bytes} {b : Bool} (h : truth? value = some b) :
      Decides "trace-joins" value (.setting (.traceJoins b))

/-- Flags that are given, and what each of them decides. -/
abbrev DecideInTurn (given : List (Bytes × Bytes)) (choices : List Choice) : Prop :=
  List.Forall₂ (fun given choice => Decides given.1 given.2 choice) given choices

/-! ## Reading flags -/

theorem mem_flags_of_findFlag {name : Bytes} {f : Flag} (h : findFlag name = .ok f) :
    f ∈ flags ∧ f.name = name := by
  rw [findFlag] at h
  split at h
  · rename_i g hfound
    cases h
    exact ⟨List.mem_of_find?_eq_some hfound, by simpa using List.find?_some hfound⟩
  · cases h

theorem choose_truth {f : Flag} {of : Bool → Choice} {value : Bytes} {choice : Choice}
    (hslot : f.slot = .truth of) (h : f.choose value = .ok choice) :
    ∃ b, truth? value = some b ∧ of b = choice := by
  rw [Flag.choose, hslot] at h
  dsimp only at h
  split at h
  · rename_i b hb
    exact ⟨b, hb, Except.ok.inj h⟩
  · cases h

theorem choose_whole {f : Flag} {of : Int → Choice} {value : Bytes} {choice : Choice}
    (hslot : f.slot = .whole of) (h : f.choose value = .ok choice) :
    ∃ n, integer? value = some n ∧ of n = choice := by
  rw [Flag.choose, hslot] at h
  dsimp only at h
  split at h
  · rename_i n hn
    exact ⟨n, by rw [integer?, hn]; rfl, Except.ok.inj h⟩
  · cases h

theorem decides_of_choose {name value : Bytes} {f : Flag} {choice : Choice}
    (hfind : findFlag name = .ok f) (h : f.choose value = .ok choice) :
    Decides name value choice := by
  obtain ⟨hmem, rfl⟩ := mem_flags_of_findFlag hfind
  simp only [flags, List.mem_cons, List.not_mem_nil, or_false] at hmem
  rcases hmem with rfl | rfl | rfl | rfl | rfl | rfl | rfl | rfl | rfl | rfl | rfl
  · cases h; exact .config value
  · obtain ⟨b, hb, rfl⟩ := choose_truth rfl h; exact .dump hb
  · cases h; exact .format value
  · obtain ⟨b, hb, rfl⟩ := choose_truth rfl h; exact .graph hb
  · obtain ⟨b, hb, rfl⟩ := choose_truth rfl h; exact .list hb
  · obtain ⟨b, hb, rfl⟩ := choose_truth rfl h; exact .load hb
  · obtain ⟨n, hn, rfl⟩ := choose_whole rfl h; exact .maxPasses hn
  · obtain ⟨b, hb, rfl⟩ := choose_truth rfl h; exact .noValidate hb
  · cases h; exact .store value
  · obtain ⟨b, hb, rfl⟩ := choose_truth rfl h; exact .traceJoins hb
  · obtain ⟨b, hb, rfl⟩ := choose_truth rfl h; exact .verbose hb

/-- A flag for a truth value that stands without one says yes. -/
theorem choose_true {f : Flag} {of : Bool → Choice} (hslot : f.slot = .truth of) :
    f.choose "true" = .ok (of true) := by
  rw [Flag.choose, hslot]
  rfl

theorem isSwitch_iff {name : Bytes} {f : Flag} (hfind : findFlag name = .ok f) :
    isSwitch name = true ↔ ∃ of, f.slot = .truth of := by
  obtain ⟨fname, slot, description⟩ := f
  rw [isSwitch, hfind]
  cases slot <;> simp

/-- Reading a command line gives what the flags that are given decide, one after
another. -/
theorem decides_of_readFlags {arguments files : List Bytes} {choices : List Choice}
    (h : readFlags arguments = .ok (choices, files)) :
    DecideInTurn (flagsGiven arguments) choices := by
  fun_induction readFlags arguments generalizing choices with
  | case1 => cases h; exact .nil
  | case2 argument rest hkind => cases h; rw [flagsGiven, hkind]; exact .nil
  | case3 argument rest hkind => cases h; rw [flagsGiven, hkind]; exact .nil
  | case4 argument rest hkind => cases h
  | case5 argument rest name value hkind fault hfind => cases h
  | case6 argument name f hfind value rest hkind ih =>
      obtain ⟨choice, hchoice, h⟩ := bind_eq_ok_iff.mp h
      obtain ⟨⟨later, files'⟩, hrest, h⟩ := bind_eq_ok_iff.mp h
      cases h
      rw [flagsGiven, hkind]
      exact .cons (decides_of_choose hfind hchoice) (ih hrest)
  | case7 argument name f hfind of rest hslot hkind ih =>
      obtain ⟨⟨later, files'⟩, hrest, h⟩ := bind_eq_ok_iff.mp h
      cases h
      have hswitch : isSwitch name = true := (isSwitch_iff hfind).mpr ⟨of, hslot⟩
      rw [flagsGiven, hkind]
      simp only [hswitch, if_true]
      exact .cons (decides_of_choose hfind (choose_true hslot)) (ih hrest)
  | case8 => cases h
  | case9 argument name f hfind value rest hslot hkind ih =>
      obtain ⟨choice, hchoice, h⟩ := bind_eq_ok_iff.mp h
      obtain ⟨⟨later, files'⟩, hrest, h⟩ := bind_eq_ok_iff.mp h
      cases h
      have hswitch : isSwitch name = false := by
        rw [Bool.eq_false_iff, Ne, isSwitch_iff hfind]
        rintro ⟨of, hof⟩
        exact hslot of hof
      rw [flagsGiven, hkind]
      simp only [hswitch, Bool.false_eq_true, if_false]
      exact .cons (decides_of_choose hfind hchoice) (ih hrest)

/-! ## The last decision -/

/-- `pick` takes, of all decisions, those of one flag, and `read` tells them from
the values of the flag. -/
def Reads {α : Type} (flag : Bytes) (read : Bytes → Option α) (pick : Choice → Option α) : Prop :=
  ∀ {name value choice}, Decides name value choice →
    if name = flag then pick choice = read value ∧ (read value).isSome else pick choice = none

theorem lastGiven_cons (name value : Bytes) (given : List (Bytes × Bytes)) (flag : Bytes) :
    lastGiven ((name, value) :: given) flag =
      (lastGiven given flag).or (if name = flag then some value else none) := by
  rw [lastGiven, List.reverse_cons, List.lookup_append, lastGiven]
  congr 1
  by_cases h : name = flag
  · simp [h]
  · simp [h, List.lookup_cons, beq_eq_false_iff_ne.mpr (Ne.symm h)]

/-- The last decision of a flag is what its last value says, which says something. -/
theorem getLast?_filterMap_of_decides
    {α : Type} {flag : Bytes} {read : Bytes → Option α} {pick : Choice → Option α}
    (hreads : Reads flag read pick) {given : List (Bytes × Bytes)} {choices : List Choice}
    (h : DecideInTurn given choices) :
    (choices.filterMap pick).getLast? = (lastGiven given flag).bind read ∧
      ∀ value, lastGiven given flag = some value → (read value).isSome := by
  induction h with
  | nil => exact ⟨rfl, fun value hvalue => nomatch hvalue⟩
  | @cons g choice given choices hdecides _ ih =>
      obtain ⟨name, value⟩ := g
      obtain ⟨hlast, hread⟩ := ih
      have hreads := hreads hdecides
      rw [lastGiven_cons]
      by_cases hname : name = flag
      · rw [if_pos hname] at hreads
        obtain ⟨hpick, a, ha⟩ := hreads.imp_right Option.isSome_iff_exists.mp
        rw [List.filterMap_cons, hpick, ha, List.getLast?_cons, hlast, if_pos hname]
        cases hgiven : lastGiven given flag with
        | none =>
            refine ⟨by simpa using ha.symm, fun v hv => ?_⟩
            cases hv
            exact Option.isSome_iff_exists.mpr ⟨a, ha⟩
        | some v =>
            obtain ⟨b, hb⟩ := Option.isSome_iff_exists.mp (hread v hgiven)
            refine ⟨by simp [hb], fun v' hv' => ?_⟩
            cases hv'
            exact hread v hgiven
      · rw [if_neg hname] at hreads
        rw [List.filterMap_cons, hreads, if_neg hname, Option.or_none]
        exact ⟨hlast, hread⟩

end LeastModel.Command
