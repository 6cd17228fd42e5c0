/-
Which arguments lead to a file.

Arguments are read from left to right, and the first one that is wrong decides on the diagnostic.
Whether there is one at all depends on less.  The flags may stand in any order, anywhere and more
than once: it only matters that each is known, and that two of them are not there together.  The
operands, which are the arguments that do not begin as a flag does, must come down to one name.

The empty argument counts as no file, and what has been read does not tell an empty argument from
none.  So empty operands are passed over as long as no file has been named; behind the name they
are too many, as any other would be.

The options that have been read so far are all that is carried along.  A file that they name
already stands before the operands that are left, and this is how the induction along the arguments
sees it.
-/
import Parlance.CommandLine.Basic

namespace Parlance.CommandLine

/-! ### Flags and operands -/

/-- The argument is read as a flag. -/
def IsFlag (a : Text) : Prop :=
  a.toList.head? = some (.char '-')

instance (a : Text) : Decidable (IsFlag a) := by
  unfold IsFlag; infer_instance

/-- The flags that set an option. -/
def knownFlags : List Text :=
  ["--no-check", "--check-only", "--verbose"]

/-- The flags that ask for help. -/
def helpFlags : List Text :=
  ["--help", "-h"]

/-- The arguments that are no flags. -/
def operands (arguments : List Text) : List Text :=
  arguments.filter fun a => ¬ IsFlag a

theorem isFlag_of_known {a : Text} (h : a ∈ knownFlags) : IsFlag a := by
  have hall : ∀ flag ∈ knownFlags, IsFlag flag := by decide
  exact hall a h

theorem isFlag_of_help {a : Text} (h : a ∈ helpFlags) : IsFlag a := by
  have hall : ∀ flag ∈ helpFlags, IsFlag flag := by decide
  exact hall a h

@[simp] theorem operands_cons_flag {a : Text} (h : IsFlag a) (rest : List Text) :
    operands (a :: rest) = operands rest := by
  simp [operands, h]

@[simp] theorem operands_cons_operand {a : Text} (h : ¬ IsFlag a) (rest : List Text) :
    operands (a :: rest) = a :: operands rest := by
  simp [operands, h]

/-! ### Reading one argument -/

/-- The options with what a flag sets. -/
def Options.raise (o : Options) (flag : Text) : Options :=
  { o with
    noCheck := o.noCheck || flag == "--no-check"
    checkOnly := o.checkOnly || flag == "--check-only"
    verbose := o.verbose || flag == "--verbose" }

variable {o p : Options} {a : Text} {rest : List Text}

theorem readFrom_help (h : a ∈ helpFlags) : readFrom o (a :: rest) = .help := by
  have ha : a = "--help" ∨ a = "-h" := by simpa [helpFlags] using h
  rw [readFrom, if_pos ha]

theorem readFrom_known (h : a ∈ knownFlags) :
    readFrom o (a :: rest) = readFrom (o.raise a) rest := by
  have ha : a = "--no-check" ∨ a = "--check-only" ∨ a = "--verbose" := by
    simpa [knownFlags] using h
  have hapart : ("--no-check" : Text) ≠ "--check-only" ∧ ("--no-check" : Text) ≠ "--verbose" ∧
      ("--check-only" : Text) ≠ "--verbose" := by decide
  obtain ⟨h1, h2, h3⟩ := hapart
  rcases ha with rfl | rfl | rfl <;>
    simp [readFrom, Options.raise, beq_false_of_ne, h1, h2, h3, h1.symm, h2.symm, h3.symm]

theorem readFrom_unknown (hflag : IsFlag a) (hknown : a ∉ knownFlags) (hhelp : a ∉ helpFlags) :
    readFrom o (a :: rest) = .wrong (.unknownFlag a) := by
  have hk : a ≠ "--no-check" ∧ a ≠ "--check-only" ∧ a ≠ "--verbose" := by
    simpa [knownFlags] using hknown
  have hh : ¬ (a = "--help" ∨ a = "-h") := by simpa [helpFlags] using hhelp
  have hdash : a.toList.head? = some (.char '-') := hflag
  obtain ⟨h1, h2, h3⟩ := hk
  rw [readFrom, if_neg hh, if_neg h1, if_neg h2, if_neg h3, if_pos hdash]

theorem readFrom_operand (h : ¬ IsFlag a) :
    readFrom o (a :: rest)
      = if o.file = "" then readFrom { o with file := a } rest else .wrong (.unexpected a) := by
  have hne {flag : Text} (hf : IsFlag flag) : a ≠ flag := by
    intro he
    rw [he] at h
    exact h hf
  have hh : ¬ (a = "--help" ∨ a = "-h") :=
    not_or.mpr ⟨hne (isFlag_of_help (by decide)), hne (isFlag_of_help (by decide))⟩
  have h1 : a ≠ "--no-check" := hne (isFlag_of_known (by decide))
  have h2 : a ≠ "--check-only" := hne (isFlag_of_known (by decide))
  have h3 : a ≠ "--verbose" := hne (isFlag_of_known (by decide))
  have h4 : ¬ a.toList.head? = some (.char '-') := h
  rw [readFrom, if_neg hh, if_neg h1, if_neg h2, if_neg h3, if_neg h4]

/-! ### Reading all of them -/

/-- From the first options the arguments lead to the second: each flag among them is known and has
been set, and the file is the last operand, nothing having been named before. -/
structure Options.Becomes (o : Options) (arguments : List Text) (p : Options) : Prop where
  known : ∀ a ∈ arguments, IsFlag a → a ∈ knownFlags
  file : ∃ n, o.file :: operands arguments = List.replicate n ("" : Text) ++ [p.file]
  noCheck : p.noCheck = (o.noCheck || arguments.contains "--no-check")
  checkOnly : p.checkOnly = (o.checkOnly || arguments.contains "--check-only")
  verbose : p.verbose = (o.verbose || arguments.contains "--verbose")

theorem becomes_nil : o.Becomes [] p ↔ p = o := by
  constructor
  · rintro ⟨-, ⟨n, hfile⟩, hno, honly, hverbose⟩
    have hn : n = 0 := by simpa [operands] using congrArg List.length hfile
    subst hn
    obtain ⟨file, noCheck, checkOnly, verbose⟩ := p
    obtain ⟨file', noCheck', checkOnly', verbose'⟩ := o
    simp_all [operands]
  · rintro rfl
    exact ⟨by simp, ⟨0, rfl⟩, by simp, by simp, by simp⟩

/-- It is the same whether a flag has been set or is still to be read. -/
theorem becomes_cons_known (h : a ∈ knownFlags) :
    o.Becomes (a :: rest) p ↔ (o.raise a).Becomes rest p := by
  have hflag := isFlag_of_known h
  have hset (x : Bool) (flag : Text) :
      (x || (a :: rest).contains flag) = (x || a == flag || rest.contains flag) := by
    rw [List.contains_cons, Bool.or_assoc, Bool.beq_comm]
  constructor
  · rintro ⟨hknown, hfile, hno, honly, hverbose⟩
    rw [operands_cons_flag hflag] at hfile
    rw [hset] at hno honly hverbose
    exact ⟨fun b hb => hknown b (List.mem_cons_of_mem _ hb), hfile, hno, honly, hverbose⟩
  · rintro ⟨hknown, hfile, hno, honly, hverbose⟩
    refine ⟨List.forall_mem_cons.mpr ⟨fun _ => h, hknown⟩, ?_, ?_, ?_, ?_⟩
    · rwa [operands_cons_flag hflag]
    · rwa [hset]
    · rwa [hset]
    · rwa [hset]

theorem not_becomes_unknown (hflag : IsFlag a) (h : a ∉ knownFlags) :
    ¬ o.Becomes (a :: rest) p := by
  intro hb
  exact h (hb.known a List.mem_cons_self hflag)

/-- A second name is one too many, unless the first was empty. -/
theorem replicate_cons_cons {file : Text} {names : List Text} {last : Text} :
    (∃ n, file :: a :: names = List.replicate n ("" : Text) ++ [last])
      ↔ file = "" ∧ ∃ n, a :: names = List.replicate n ("" : Text) ++ [last] := by
  constructor
  · rintro ⟨n, h⟩
    cases n with
    | zero => simp at h
    | succ n =>
      rw [List.replicate_succ, List.cons_append, List.cons.injEq] at h
      exact ⟨h.1, n, h.2⟩
  · rintro ⟨rfl, n, h⟩
    exact ⟨n + 1, by rw [h, List.replicate_succ, List.cons_append]⟩

theorem becomes_cons_operand (h : ¬ IsFlag a) :
    o.Becomes (a :: rest) p ↔ o.file = "" ∧ { o with file := a }.Becomes rest p := by
  have hset (flag : Text) (hf : flag ∈ knownFlags) :
      (a :: rest).contains flag = rest.contains flag := by
    have hne : flag ≠ a := by
      intro he
      rw [← he] at h
      exact h (isFlag_of_known hf)
    simp [hne]
  have h1 := hset "--no-check" (by decide)
  have h2 := hset "--check-only" (by decide)
  have h3 := hset "--verbose" (by decide)
  constructor
  · rintro ⟨hknown, hfile, hno, honly, hverbose⟩
    rw [operands_cons_operand h, replicate_cons_cons] at hfile
    rw [h1] at hno
    rw [h2] at honly
    rw [h3] at hverbose
    exact ⟨hfile.1, fun b hb => hknown b (List.mem_cons_of_mem _ hb), hfile.2, hno, honly, hverbose⟩
  · rintro ⟨hempty, hknown, hfile, hno, honly, hverbose⟩
    refine ⟨List.forall_mem_cons.mpr ⟨fun hf => absurd hf h, hknown⟩, ?_, ?_, ?_, ?_⟩
    · rw [operands_cons_operand h, replicate_cons_cons]
      exact ⟨hempty, hfile⟩
    · rwa [h1]
    · rwa [h2]
    · rwa [h3]

theorem request_go : o.request = .go p ↔
    p = o ∧ o.file ≠ "" ∧ ¬ (o.noCheck = true ∧ o.checkOnly = true) := by
  rw [Options.request, ← Bool.and_eq_true]
  by_cases hfile : o.file = ""
  · simp [hfile]
  · by_cases hboth : (o.noCheck && o.checkOnly) = true
    · simp [hfile, hboth]
    · simp [hfile, hboth, eq_comm]

/-- Reading goes on to the file with these options if the arguments lead to them and they are
complete. -/
theorem readFrom_go {arguments : List Text} :
    readFrom o arguments = .go p ↔ o.Becomes arguments p ∧ p.request = .go p := by
  induction arguments generalizing o with
  | nil =>
    rw [readFrom, becomes_nil]
    constructor
    · intro h
      obtain ⟨rfl, -⟩ := request_go.mp h
      exact ⟨rfl, h⟩
    · rintro ⟨rfl, h⟩
      exact h
  | cons a rest ih =>
    by_cases hflag : IsFlag a
    · by_cases hknown : a ∈ knownFlags
      · rw [readFrom_known hknown, becomes_cons_known hknown, ih]
      · have hnot : ¬ readFrom o (a :: rest) = .go p := by
          by_cases hhelp : a ∈ helpFlags
          · rw [readFrom_help hhelp]
            exact nofun
          · rw [readFrom_unknown hflag hknown hhelp]
            exact nofun
        constructor
        · intro h
          exact absurd h hnot
        · rintro ⟨h, -⟩
          exact absurd h (not_becomes_unknown hflag hknown)
    · rw [readFrom_operand hflag, becomes_cons_operand hflag, and_assoc, ← ih]
      by_cases hempty : o.file = ""
      · rw [if_pos hempty]
        simp [hempty]
      · rw [if_neg hempty]
        simp [hempty]

/-- Help is only given where it is asked for. -/
theorem readFrom_ne_help {arguments : List Text} (h : ∀ a ∈ arguments, a ∉ helpFlags) :
    readFrom o arguments ≠ .help := by
  induction arguments generalizing o with
  | nil =>
    rw [readFrom, Options.request]
    split
    · exact nofun
    · split
      · exact nofun
      · exact nofun
  | cons a rest ih =>
    obtain ⟨ha, hrest⟩ := List.forall_mem_cons.mp h
    by_cases hflag : IsFlag a
    · by_cases hknown : a ∈ knownFlags
      · rw [readFrom_known hknown]
        exact ih hrest
      · rw [readFrom_unknown hflag hknown ha]
        exact nofun
    · rw [readFrom_operand hflag]
      split
      · exact ih hrest
      · exact nofun

/-! ### Opening the file -/

/-- The arguments name the file, and are in order otherwise. -/
structure Names (arguments : List Text) (file : Text) : Prop where
  nonempty : file ≠ ""
  /-- The operands are the name, and before it any number of empty ones. -/
  last : ∃ n, operands arguments = List.replicate n ("" : Text) ++ [file]
  known : ∀ a ∈ arguments, IsFlag a → a ∈ knownFlags
  exclusive : ¬ (("--no-check" : Text) ∈ arguments ∧ ("--check-only" : Text) ∈ arguments)

/-- Where no argument is empty, the file is the only operand. -/
theorem names_iff_of_nonempty {arguments : List Text} {file : Text} (h : ("" : Text) ∉ arguments) :
    Names arguments file ↔ operands arguments = [file] ∧
      (∀ a ∈ arguments, IsFlag a → a ∈ knownFlags) ∧
      ¬ (("--no-check" : Text) ∈ arguments ∧ ("--check-only" : Text) ∈ arguments) := by
  have hsub {a : Text} (ha : a ∈ operands arguments) : a ∈ arguments := (List.mem_filter.mp ha).1
  constructor
  · rintro ⟨-, ⟨n, hlast⟩, hknown, hboth⟩
    refine ⟨?_, hknown, hboth⟩
    cases n with
    | zero => exact hlast
    | succ n =>
      have hempty : ("" : Text) ∈ operands arguments := by simp [hlast, List.replicate_succ]
      exact absurd (hsub hempty) h
  · rintro ⟨hone, hknown, hboth⟩
    have hfile : file ∈ arguments := hsub (by simp [hone])
    refine ⟨?_, ⟨0, hone⟩, hknown, hboth⟩
    intro he
    rw [he] at hfile
    exact h hfile

/-- The options that a file and a set of flags make. -/
def Options.asked (arguments : List Text) (file : Text) : Options :=
  ⟨file, arguments.contains "--no-check", arguments.contains "--check-only",
    arguments.contains "--verbose"⟩

/-- What is read is the name of the file and the set of the flags, and nothing else. -/
theorem readArguments_go {arguments : List Text} :
    readArguments arguments = .go p ↔
      Names arguments p.file ∧ p = .asked arguments p.file := by
  have hlast {file : Text} :
      (∃ n, Options.start.file :: operands arguments = List.replicate n ("" : Text) ++ [file]) →
        file ≠ "" → ∃ n, operands arguments = List.replicate n ("" : Text) ++ [file] := by
    rintro ⟨n, h⟩ hne
    cases n with
    | zero =>
      have he : ("" : Text) = file ∧ operands arguments = [] := by simpa [Options.start] using h
      exact absurd he.1.symm hne
    | succ n =>
      rw [List.replicate_succ, List.cons_append, List.cons.injEq] at h
      exact ⟨n, h.2⟩
  rw [readArguments, readFrom_go, request_go]
  constructor
  · rintro ⟨⟨hknown, hfile, hno, honly, hverbose⟩, -, hne, hboth⟩
    have hasked : p = .asked arguments p.file := by
      obtain ⟨file, noCheck, checkOnly, verbose⟩ := p
      simp_all [Options.asked, Options.start]
    refine ⟨⟨hne, hlast hfile hne, hknown, ?_⟩, hasked⟩
    rw [hasked] at hboth
    simpa [Options.asked] using hboth
  · rintro ⟨⟨hne, ⟨n, hfile⟩, hknown, hboth⟩, hasked⟩
    have hbecomes : Options.start.Becomes arguments (.asked arguments p.file) := by
      refine ⟨hknown, ⟨n + 1, ?_⟩, by simp [Options.asked, Options.start],
        by simp [Options.asked, Options.start], by simp [Options.asked, Options.start]⟩
      rw [hfile, List.replicate_succ, List.cons_append]
      rfl
    refine ⟨hasked ▸ hbecomes, rfl, hne, ?_⟩
    rw [hasked]
    simpa [Options.asked] using hboth

/-- The run looks for a file of that name: what it leaves behind depends on what is found there, and
on nothing that is found elsewhere. -/
structure Opens (arguments : List Text) (file : Text) : Prop where
  depends : ∃ files files' fuel stdout,
    run arguments files fuel stdout ≠ run arguments files' fuel stdout
  only : ∀ files files' fuel stdout, files file = files' file →
    run arguments files fuel stdout = run arguments files' fuel stdout

theorem run_of_go {arguments : List Text} (hread : readArguments arguments = .go p)
    (files : Text → Found) (fuel : Nat) (stdout : Encoding) :
    run arguments files fuel stdout = p.runFound fuel stdout (files p.file) := by
  simp only [run, hread]

/-- A file that is missing and one that is no text are told apart. -/
theorem runFound_missing_ne (p : Options) (fuel : Nat) (stdout : Encoding) :
    p.runFound fuel stdout .missing ≠ p.runFound fuel stdout .notText := by
  intro h
  have herr := congrArg (fun r => r.stderr.toList) h
  simp [Options.runFound, Options.ended, diagnostic] at herr
  revert herr
  decide

theorem opens_iff {arguments : List Text} {file : Text} :
    Opens arguments file ↔ ∃ p, readArguments arguments = .go p ∧ p.file = file := by
  constructor
  · rintro ⟨⟨files, files', fuel, stdout, hne⟩, honly⟩
    cases hread : readArguments arguments with
    | help => simp [run, hread] at hne
    | wrong f => simp [run, hread] at hne
    | go p =>
      refine ⟨p, rfl, Decidable.byContradiction fun hfile => ?_⟩
      -- Two directories that differ in the file that was read would have to be the same to the run.
      have hsame := honly (fun name => if name = p.file then .missing else .notText)
        (fun _ => .notText) fuel stdout (if_neg (Ne.symm hfile))
      rw [run_of_go hread, run_of_go hread] at hsame
      simp only [if_true] at hsame
      exact runFound_missing_ne p fuel stdout hsame
  · rintro ⟨p, hread, rfl⟩
    refine ⟨⟨fun _ => .missing, fun _ => .notText, 0, .utf8, ?_⟩, ?_⟩
    · rw [run_of_go hread, run_of_go hread]
      exact runFound_missing_ne p 0 .utf8
    · intro files files' fuel stdout h
      rw [run_of_go hread, run_of_go hread, h]

theorem opens_iff_names {arguments : List Text} {file : Text} :
    Opens arguments file ↔ Names arguments file := by
  rw [opens_iff]
  constructor
  · rintro ⟨p, hread, rfl⟩
    exact (readArguments_go.mp hread).1
  · intro h
    exact ⟨.asked arguments file, readArguments_go.mpr ⟨h, rfl⟩, rfl⟩

/-- **The operands and the set of flags decide.** A run opens a file exactly when the arguments name
it and are in order otherwise; if none of them is empty, this takes a single operand.  If no help is
asked for and no file is opened, the run ends with the status for wrong usage and one diagnostic,
whatever there is to be found.  Two runs that open the same file with the same flags are the same,
wherever the flags stand and however often. -/
theorem arguments_decide (arguments : List Text) :
    (∀ file, Opens arguments file ↔ Names arguments file) ∧
    (("" : Text) ∉ arguments → ∀ file, Opens arguments file ↔ operands arguments = [file] ∧
      (∀ a ∈ arguments, IsFlag a → a ∈ knownFlags) ∧
      ¬ (("--no-check" : Text) ∈ arguments ∧ ("--check-only" : Text) ∈ arguments)) ∧
    ((∀ a ∈ arguments, a ∉ helpFlags) → (¬ ∃ file, Opens arguments file) →
      ∃ fault : UsageFault, ∀ files fuel stdout,
        run arguments files fuel stdout = ⟨.exit 2, "", diagnostic fault.message⟩) ∧
    ∀ file others, Opens arguments file → Opens others file →
      (∀ flag ∈ knownFlags, flag ∈ arguments ↔ flag ∈ others) →
      ∀ files fuel stdout, run arguments files fuel stdout = run others files fuel stdout := by
  refine ⟨fun file => opens_iff_names, ?_, ?_, ?_⟩
  · intro hempty file
    rw [opens_iff_names, names_iff_of_nonempty hempty]
  · intro hhelp hnone
    cases hread : readArguments arguments with
    | help => exact absurd hread (readFrom_ne_help hhelp)
    | wrong fault =>
      refine ⟨fault, fun files fuel stdout => ?_⟩
      simp only [run, hread]
    | go p => exact absurd ⟨p.file, opens_iff.mpr ⟨p, hread, rfl⟩⟩ hnone
  · intro file others hopens hothers hflags files fuel stdout
    have hasked : Options.asked arguments file = .asked others file := by
      have hset (flag : Text) (hf : flag ∈ knownFlags) :
          arguments.contains flag = others.contains flag := by
        simp [hflags flag hf]
      rw [Options.asked, Options.asked, hset "--no-check" (by decide),
        hset "--check-only" (by decide), hset "--verbose" (by decide)]
    have hread := readArguments_go.mpr
      ⟨opens_iff_names.mp hopens, (rfl : Options.asked arguments file = _)⟩
    have hread' := readArguments_go.mpr
      ⟨opens_iff_names.mp hothers, (rfl : Options.asked others file = _)⟩
    rw [run_of_go hread, run_of_go hread', hasked]

/-- An empty argument and a flag that stands twice leave the run as it is; behind the name the empty
argument is one too many. -/
theorem arguments_decide_empty :
    (Opens ["", "--verbose", "p.json", "--verbose"] "p.json" ∧
      ∀ files fuel stdout, run ["", "--verbose", "p.json", "--verbose"] files fuel stdout
        = run ["p.json", "--verbose"] files fuel stdout) ∧
    ∃ fault : UsageFault, ∀ files fuel stdout,
      run ["p.json", ""] files fuel stdout = ⟨.exit 2, "", diagnostic fault.message⟩ := by
  have hopens : Opens ["", "--verbose", "p.json", "--verbose"] "p.json" :=
    ((arguments_decide _).1 _).mpr ⟨by decide, ⟨1, by decide⟩, by decide, by decide⟩
  have hplain : Opens ["p.json", "--verbose"] "p.json" :=
    ((arguments_decide _).2.1 (by decide) _).mpr ⟨by decide, by decide, by decide⟩
  have hsecond : ¬ ∃ file, Opens ["p.json", ""] file := by
    rintro ⟨file, h⟩
    obtain ⟨n, hn⟩ := (((arguments_decide _).1 file).mp h).last
    have hoperands : operands ["p.json", ""] = ["p.json", ""] := by decide
    rw [hoperands] at hn
    cases n with
    | zero => simp at hn
    | succ n => simp [List.replicate_succ] at hn
  exact ⟨⟨hopens, (arguments_decide _).2.2.2 _ _ hopens hplain (by decide)⟩,
    (arguments_decide _).2.2.1 (by decide) hsecond⟩

/-- Counting the operands is not enough to tell which arguments lead to a file: here there are two,
and the second one is opened. -/
theorem empty_argument_overlooked :
    ¬ ∀ arguments : List Text, (∀ a ∈ arguments, a ∉ helpFlags) →
      ((∃ file, Opens arguments file) ↔
        ∃ file, operands arguments = [file] ∧ file ≠ "" ∧
          (∀ a ∈ arguments, IsFlag a → a ∈ knownFlags) ∧
          ¬ (("--no-check" : Text) ∈ arguments ∧ ("--check-only" : Text) ∈ arguments)) := by
  intro h
  have hopens : Opens ["", "p.json"] "p.json" :=
    opens_iff_names.mpr ⟨by decide, ⟨1, by decide⟩, by decide, by decide⟩
  obtain ⟨file, hone, -⟩ := (h ["", "p.json"] (by decide)).mp ⟨"p.json", hopens⟩
  have hoperands : operands ["", "p.json"] = ["", "p.json"] := by decide
  simp [hoperands] at hone

end Parlance.CommandLine
