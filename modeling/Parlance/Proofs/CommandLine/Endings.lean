/-
How a run of the command line ends.

A run ends with an exit status that the system can hold, unless it has no end.  Whatever goes wrong
on the way, in the file, in the check or in the evaluation, is told in a line of its own, and the
status is one.

The exception is what breaks an evaluation off.  No line is written for an integer that is too long
for a text or a decimal that is too large, nor for a text that the output stream refuses, and there
is no exit status then either.  It is the only one: a tree that was read gives its evaluation
nothing else to stop for that cannot be told, and the file that it was read from holds nothing that
a message could not show.
-/
import Parlance.Proofs.Checking.Outcome
import Parlance.Proofs.CommandLine.Agreement
import Parlance.Proofs.CommandLine.Arguments
import Parlance.Proofs.Document.Refusals
import Parlance.Proofs.Running.Foreseen

namespace Parlance

/-- The value can be an exit status. -/
def Value.IsStatus : Value → Prop
  | .integer n => 0 ≤ n ∧ n ≤ 255
  | _ => False

namespace CommandLine

/-! ### What becomes of a file -/

/-- What is found is evaluated as this source, begun in this store: as it is read, or as the check
has left it. -/
inductive Options.Evaluates (o : Options) (stdout : Encoding) : Found → Source → Store → Prop
  | unchecked {content : String} {d : Json} {s : Source} (parsed : Json.ofText? content = some d)
      (read : Document.toSource d = .ok s) (noCheck : o.noCheck = true) :
      o.Evaluates stdout (.text content) s (.opened stdout)
  | checked {content : String} {d : Json} {s : Source} (parsed : Json.ofText? content = some d)
      (read : Document.toSource d = .ok s) (noCheck : o.noCheck = false)
      (checkOnly : o.checkOnly = false) (accepted : s.Accepted .initial) :
      o.Evaluates stdout (.text content) (s.checked (.opened stdout))
        ((s.analyze .none (.opened stdout)).store.report (.passed o.file))

/-- What is found comes to no evaluation: it is no text, no JSON or no tree, or fails the check. -/
inductive Options.Rejects (o : Options) : Found → Prop
  | missing : o.Rejects .missing
  | unreadable {reason : String} : o.Rejects (.unreadable reason)
  | notText : o.Rejects .notText
  | notJson {content : String} (parsed : Json.ofText? content = none) :
      o.Rejects (.text content)
  | notSource {content : String} {d : Json} {f : DocumentFault}
      (parsed : Json.ofText? content = some d) (read : Document.toSource d = .error f) :
      o.Rejects (.text content)
  | notAccepted {content : String} {d : Json} {s : Source}
      (parsed : Json.ofText? content = some d) (read : Document.toSource d = .ok s)
      (noCheck : o.noCheck = false) (refused : ¬ s.Accepted .initial) : o.Rejects (.text content)

/-- The evaluation of what is found comes to an answer. -/
def Options.Answers (o : Options) (fuel : Nat) (stdout : Encoding) (found : Found) (v : Value) :
    Prop :=
  ∃ s σ τ, o.Evaluates stdout found s σ ∧ s.evaluate .none fuel σ = .ok v τ

/-- The evaluation of what is found stops. -/
def Options.Stops (o : Options) (fuel : Nat) (stdout : Encoding) (found : Found) (stop : Stop) :
    Prop :=
  ∃ s σ τ, o.Evaluates stdout found s σ ∧ s.evaluate .none fuel σ = .error stop τ

/-- Something goes wrong: with the file or the check, in the evaluation, or with what it answers. -/
inductive Options.Fails (o : Options) (fuel : Nat) (stdout : Encoding) (found : Found) : Prop
  | rejected (h : o.Rejects found)
  | stopped {f : Fault} (h : o.Stops fuel stdout found (.fault f))
  | answered {v : Value} (h : o.Answers fuel stdout found v) (hv : ¬ v.IsStatus)

/-- The exit status is one, and after the log there is a diagnostic on the error stream. -/
def Options.Diagnoses (o : Options) (r : Result) : Prop :=
  r.ending = .exit 1 ∧ ∃ log message, r.stderr = logLines o.verbose log ++ diagnostic message

variable {o : Options} {stdout : Encoding} {found : Found} {s : Source} {σ τ : Store}

namespace Options

theorem diagnoses_ended (o : Options) (σ : Store) (message : Text) :
    o.Diagnoses (o.ended σ 1 (diagnostic message)) :=
  ⟨rfl, σ.log, message, rfl⟩

theorem diagnoses_stopped (o : Options) (σ : Store) {f : Fault} (hf : ∃ r, f.report = .ok r) :
    o.Diagnoses (o.stopped σ (.fault f)) := by
  obtain ⟨r, hr⟩ := hf
  simp only [stopped, hr, faultDiagnostic_eq]
  exact o.diagnoses_ended σ _

/-! ### Before the evaluation -/

theorem runFound_of_source {content : String} {d : Json}
    (parsed : Json.ofText? content = some d) (read : Document.toSource d = .ok s) (fuel : Nat)
    (stdout : Encoding) :
    o.runFound fuel stdout (.text content) = o.perform fuel stdout s := by
  simp only [runFound, parsed, load, read]

theorem Evaluates.runFound (h : o.Evaluates stdout found s σ) (fuel : Nat) :
    o.runFound fuel stdout found = o.evaluate fuel s σ := by
  cases h with
  | unchecked parsed read noCheck =>
    rw [runFound_of_source parsed read]
    simp only [perform, noCheck, if_true]
  | @checked content d s parsed read noCheck checkOnly accepted =>
    rw [runFound_of_source parsed read]
    simp only [perform, noCheck, Bool.false_eq_true, if_false]
    have accepted := (s.verdict_opened stdout).trans accepted
    split
    · next hs => cases (congrArg Checked.verdict hs).symm.trans accepted
    · next hs =>
      simp only [checkOnly, Source.checked, hs, Bool.false_eq_true, if_false]

/-- What is evaluated is a tree that was read. -/
theorem Evaluates.spelled (h : o.Evaluates stdout found s σ) : AllSpelled s.walk := by
  cases h with
  | unchecked _ read _ => exact Source.Annotated.spelled read .read
  | checked _ read _ _ _ => exact Source.Annotated.spelled read (.checked .read _ _)

/-- What fails before the evaluation is told. -/
theorem Rejects.diagnoses (h : o.Rejects found) (fuel : Nat) (stdout : Encoding) :
    o.Diagnoses (o.runFound fuel stdout found) := by
  cases h with
  | missing | unreadable | notText => exact o.diagnoses_ended _ _
  | notJson parsed =>
    simp only [runFound, parsed]
    exact o.diagnoses_ended _ _
  | notSource parsed read =>
    simp only [runFound, parsed, load, read]
    obtain ⟨m, hm⟩ := Option.isSome_iff_exists.mp
      (Document.explained_toSource _ (Json.short_of_ofText? parsed) _ read)
    exact o.diagnoses_stopped _ ⟨_, report_of_message hm⟩
  | @notAccepted content d s parsed read noCheck refused =>
    rw [runFound_of_source parsed read]
    simp only [perform, noCheck, Bool.false_eq_true, if_false]
    split
    · next f σ hs =>
      have told : f.Told (Store.opened stdout).FunctionsTyped :=
        (Source.Annotated.verdict_told read .read Host.none (.opened stdout)).error (by rw [hs])
      exact o.diagnoses_stopped σ (told.resolve_right fun h => h.2 (Store.FunctionsTyped.opened _))
    · next hs =>
      exact absurd ((s.verdict_opened stdout).symm.trans (congrArg Checked.verdict hs)) refused

/-- What is found is rejected, evaluated, or only checked. -/
theorem found_cases (o : Options) (stdout : Encoding) (found : Found) :
    o.Rejects found ∨ (∃ s σ, o.Evaluates stdout found s σ) ∨
      ∀ fuel, (o.runFound fuel stdout found).ending = .exit 0 := by
  cases found with
  | missing => exact .inl .missing
  | unreadable reason => exact .inl .unreadable
  | notText => exact .inl .notText
  | text content =>
    cases parsed : Json.ofText? content with
    | none => exact .inl (.notJson parsed)
    | some d =>
      cases read : Document.toSource d with
      | error f => exact .inl (.notSource parsed read)
      | ok s =>
        by_cases noCheck : o.noCheck = true
        · exact .inr (.inl ⟨s, _, .unchecked parsed read noCheck⟩)
        · rw [Bool.not_eq_true] at noCheck
          by_cases accepted : s.Accepted .initial
          · by_cases checkOnly : o.checkOnly = true
            · refine .inr (.inr fun fuel => ?_)
              rw [runFound_of_source parsed read]
              simp only [perform, noCheck, checkOnly, Bool.false_eq_true, if_false, if_true]
              have accepted := (s.verdict_opened stdout).trans accepted
              split
              · next hs => cases (congrArg Checked.verdict hs).symm.trans accepted
              · rfl
            · rw [Bool.not_eq_true] at checkOnly
              exact .inr (.inl ⟨_, _, .checked parsed read noCheck checkOnly accepted⟩)
          · exact .inl (.notAccepted parsed read noCheck accepted)

/-! ### The evaluation and after it -/

theorem Evaluates.runFound_of_stop (h : o.Evaluates stdout found s σ) {fuel : Nat} {stop : Stop}
    (hstop : s.evaluate .none fuel σ = .error stop τ) :
    o.runFound fuel stdout found = o.stopped τ stop := by
  simp only [h.runFound, evaluate, EStateM.run, hstop]

theorem Stops.runFound {fuel : Nat} {stop : Stop} (h : o.Stops fuel stdout found stop) :
    ∃ τ, o.runFound fuel stdout found = o.stopped τ stop := by
  obtain ⟨s, σ, τ, h, hstop⟩ := h
  exact ⟨τ, h.runFound_of_stop hstop⟩

/-- What is evaluated writes to the output stream. -/
theorem Evaluates.encoding (h : o.Evaluates stdout found s σ) : σ.encoding = stdout := by
  cases h with
  | unchecked _ _ _ => rfl
  | @checked content d s _ _ _ _ _ => exact s.encoding_analyze Host.none (.opened stdout)

/-- An evaluation that stops is told, or has been broken off. -/
theorem Evaluates.stopped (h : o.Evaluates stdout found s σ) {fuel : Nat} {f : Fault}
    (hf : s.evaluate .none fuel σ = .error (.fault f) τ) :
    o.Diagnoses (o.runFound fuel stdout found) ∨ f.Breaks stdout := by
  rw [h.runFound_of_stop hf]
  have foreseen := Source.evaluate_foreseen h.spelled (Host.calm_none σ) hf
  rw [h.encoding] at foreseen
  exact foreseen.imp_left (o.diagnoses_stopped τ)

/-- An answer that can be a status is the status, and any other is told. -/
theorem Evaluates.answered (h : o.Evaluates stdout found s σ) {fuel : Nat} {v : Value}
    (hv : s.evaluate .none fuel σ = .ok v τ) :
    (∃ n : Nat, n ≤ 255 ∧ v = .integer n ∧ (o.runFound fuel stdout found).ending = .exit n) ∨
      o.Diagnoses (o.runFound fuel stdout found) := by
  have hrun : o.runFound fuel stdout found = o.answered τ v := by
    simp only [h.runFound, evaluate, EStateM.run, hv]
  rw [hrun]
  cases v with
  | integer n =>
    by_cases hn : 0 ≤ n ∧ n ≤ 255
    · refine .inl ⟨n.toNat, by omega, by rw [Int.toNat_of_nonneg hn.1], ?_⟩
      simp only [Options.answered, if_pos hn, ended]
    · -- the text of the answer is there, since it has gone into the log
      obtain ⟨t, ht⟩ := Source.text_of_evaluate hv
      obtain ⟨t, ht, -⟩ := bind_ok.mp ht
      simp only [Options.answered, if_neg hn, ht]
      exact .inr (o.diagnoses_ended τ _)
  | _ => exact .inr (o.diagnoses_ended τ _)

/-- Every failure is told, unless the evaluation has been broken off. -/
theorem Fails.diagnoses {fuel : Nat} (hfails : o.Fails fuel stdout found) :
    o.Diagnoses (o.runFound fuel stdout found) ∨
      ∃ f : Fault, f.Breaks stdout ∧ o.Stops fuel stdout found (.fault f) := by
  cases hfails with
  | rejected h => exact .inl (h.diagnoses fuel stdout)
  | stopped h =>
    obtain ⟨s, σ, τ, h, he⟩ := h
    exact (h.stopped he).imp_right fun hf => ⟨_, hf, s, σ, τ, h, he⟩
  | answered h hv =>
    obtain ⟨s, σ, τ, h, he⟩ := h
    rcases h.answered he with ⟨n, hn, rfl, -⟩ | hd
    · exact absurd (show 0 ≤ (n : Int) ∧ (n : Int) ≤ 255 by omega) hv
    · exact .inl hd

theorem Stops.broken {fuel : Nat} {f : Fault} (hf : f.message? = none)
    (h : o.Stops fuel stdout found (.fault f)) :
    (o.runFound fuel stdout found).ending = .broken f.silence := by
  obtain ⟨τ, hτ⟩ := h.runFound
  simp only [hτ, Options.stopped, Fault.report, hf]

/-- There is a status, or the evaluation has stopped for want of fuel or has been broken off. -/
theorem runFound_ends (o : Options) (found : Found) (fuel : Nat) (stdout : Encoding) :
    (∃ n ≤ 255, (o.runFound fuel stdout found).ending = .exit n) ∨
      ((o.runFound fuel stdout found).ending = .outOfFuel ∧ o.Stops fuel stdout found .outOfFuel ∨
        ∃ f : Fault, f.Breaks stdout ∧ (o.runFound fuel stdout found).ending = .broken f.silence ∧
          o.Stops fuel stdout found (.fault f)) := by
  have told (h : o.Diagnoses (o.runFound fuel stdout found)) :
      ∃ n ≤ 255, (o.runFound fuel stdout found).ending = .exit n := ⟨1, by omega, h.1⟩
  rcases o.found_cases stdout found with h | ⟨s, σ, h⟩ | h
  · exact .inl (told (h.diagnoses fuel stdout))
  · cases he : s.evaluate .none fuel σ with
    | ok v τ =>
      rcases h.answered he with ⟨n, hn, -, hending⟩ | hd
      · exact .inl ⟨n, hn, hending⟩
      · exact .inl (told hd)
    | error stop τ =>
      have stops : o.Stops fuel stdout found stop := ⟨s, σ, τ, h, he⟩
      cases stop with
      | outOfFuel => exact .inr (.inl ⟨by rw [h.runFound_of_stop he]; rfl, stops⟩)
      | fault f =>
        rcases h.stopped he with hd | hf
        · exact .inl (told hd)
        · exact .inr (.inr ⟨f, hf, stops.broken hf.message?_eq_none, stops⟩)
  · exact .inl ⟨0, by omega, h fuel⟩

end Options

/-! ### The command line as a whole -/

/-- **A run ends with an exit status, unless it has no end or is broken off.**  Where the file
cannot be read, the check fails, the evaluation stops or what it answers is no status, the status is
one and there is a diagnostic on the error stream.  The exception is an evaluation that meets a limit
on numbers, or writes a text that the output stream refuses: it takes the run with it, always. -/
theorem run_ends (arguments : List Text) (files : Text → Found) (fuel : Nat) (stdout : Encoding) :
    ((∃ n ≤ 255, (run arguments files fuel stdout).ending = .exit n) ∨
      ∃ o, readArguments arguments = .go o ∧
        ((run arguments files fuel stdout).ending = .outOfFuel ∧
            o.Stops fuel stdout (files o.file) .outOfFuel ∨
          ∃ f : Fault, f.Breaks stdout ∧
            (run arguments files fuel stdout).ending = .broken f.silence ∧
            o.Stops fuel stdout (files o.file) (.fault f))) ∧
    ∀ o, readArguments arguments = .go o →
      (o.Fails fuel stdout (files o.file) → o.Diagnoses (run arguments files fuel stdout) ∨
        ∃ f : Fault, f.Breaks stdout ∧ o.Stops fuel stdout (files o.file) (.fault f)) ∧
      ∀ f : Fault, f.message? = none → o.Stops fuel stdout (files o.file) (.fault f) →
        (run arguments files fuel stdout).ending = .broken f.silence := by
  refine ⟨?_, fun o hread => ?_⟩
  · cases hread : readArguments arguments with
    | help => exact .inl ⟨0, by omega, by simp only [run, hread]⟩
    | wrong f => exact .inl ⟨2, by omega, by simp only [run, hread]⟩
    | go o =>
      rw [run_of_go hread]
      exact (o.runFound_ends (files o.file) fuel stdout).imp_right fun h => ⟨o, rfl, h⟩
  · rw [run_of_go hread]
    exact ⟨fun hfails => hfails.diagnoses, fun f hf hstops => hstops.broken hf⟩

/-! ### Programs in files -/

/-- The document of a source that has an entry point and nothing else. -/
def mainDocument (statements : List Json) : Json :=
  Document.ofForm .source
    [("methods", .array
      [Document.ofForm .method
        [("name", .string "main"), ("return_type_name", .string "Integer"),
         ("statements", .array statements)]])]

/-- The source in that document. -/
def mainSource (body : List Stmt) : Source where
  fields := []
  methods := [.method ⟨"main", [], [], some "Integer", body, none⟩]

/-- The document of an integer that is written so. -/
def literalDocument (digits : String) : Json :=
  Document.ofForm .literal [("value", Document.payload "Integer" (.string digits))]

/-- The document of an operation on what these documents hold. -/
def binaryDocument (operator : String) (left right : Json) : Json :=
  Document.ofForm .binary [("operator", .string operator), ("left", left), ("right", right)]

/-- The text of a program that divides by zero. -/
def divisionText : String :=
  "\x7b\"_type\": \"Source\", \"methods\": [\x7b\"_type\": \"Method\", \"name\": " ++
  "\"main\", \"return_type_name\": \"Integer\", \"statements\": [\x7b\"_type\": " ++
  "\"Return\", \"value\": \x7b\"_type\": \"Binary\", \"operator\": \"/\", \"left\": " ++
  "\x7b\"_type\": \"Literal\", \"value\": \x7b\"kind\": \"Integer\", \"value\": " ++
  "\"1\"\x7d\x7d, \"right\": \x7b\"_type\": \"Literal\", \"value\": \x7b\"kind\": " ++
  "\"Integer\", \"value\": \"0\"\x7d\x7d\x7d\x7d]\x7d]\x7d"

/-- The document in that text. -/
def divisionDocument : Json :=
  mainDocument
    [Document.ofForm .returning
      [("value", binaryDocument "/" (literalDocument "1") (literalDocument "0"))]]

/-- The program in that document. -/
def division : Source :=
  mainSource
    [.returning (.binary "/" (.literal (.integer 1) none) (.literal (.integer 0) none) none)]

set_option maxRecDepth 4000 in
theorem ofText?_divisionText : Json.ofText? divisionText = some divisionDocument := by
  unfold Json.ofText? divisionText
  simp only [String.toList_append]
  repeat rw [show String.toList _ = _ from String.toList_ofList]
  rfl

theorem toSource_divisionDocument : Document.toSource divisionDocument = .ok division := by
  cbv

/-- The program passes the check and stops, and it is told why. -/
theorem run_ends_division :
    Options.Fails ⟨"p.json", false, false, false⟩ 20 .utf8 (.text divisionText) ∧
    Options.Diagnoses ⟨"p.json", false, false, false⟩
      (run ["p.json"] (fun _ => .text divisionText) 20) := by
  have accepted : division.Accepted .initial := by decide +kernel
  obtain ⟨τ, hτ⟩ := Eval.exists_of_stop? (s := .fault (.run .divisionByZero))
    (x := (division.checked (.opened .utf8)).evaluate .none 20)
    (σ := (division.analyze .none (.opened .utf8)).store.report (.passed "p.json"))
    (by decide +kernel)
  have fails : Options.Fails ⟨"p.json", false, false, false⟩ 20 .utf8 (.text divisionText) :=
    .stopped ⟨_, _, τ, .checked ofText?_divisionText toSource_divisionDocument rfl rfl accepted, hτ⟩
  obtain ⟨told, -⟩ := (run_ends ["p.json"] (fun _ => .text divisionText) 20 .utf8).2 _ rfl
  refine ⟨fails, (told fails).resolve_right ?_⟩
  -- no evaluation of this text stops for anything else
  rintro ⟨f, hf, s, σ, τ', h, he⟩
  cases h with
  | unchecked _ _ noCheck => cases noCheck
  | checked parsed read _ _ _ =>
    cases ofText?_divisionText.symm.trans parsed
    cases toSource_divisionDocument.symm.trans read
    cases hτ.symm.trans he
    exact absurd hf.message?_eq_none (by simp [Fault.message?, RunFault.message?])

/-- The text of a program that squares an integer thirteen times and answers it. -/
def squaresText : String :=
  "\x7b\"_type\": \"Source\", \"methods\": [\x7b\"_type\": \"Method\", \"name\": " ++
  "\"main\", \"return_type_name\": \"Integer\", \"statements\": [\x7b\"_type\": " ++
  "\"Declaration\", \"name\": \"x\", \"value\": \x7b\"_type\": \"Literal\", \"value\": " ++
  "\x7b\"kind\": \"Integer\", \"value\": \"10\"\x7d\x7d\x7d, \x7b\"_type\": " ++
  "\"Declaration\", \"name\": \"i\", \"value\": \x7b\"_type\": \"Literal\", \"value\": " ++
  "\x7b\"kind\": \"Integer\", \"value\": \"0\"\x7d\x7d\x7d, \x7b\"_type\": \"While\", " ++
  "\"condition\": \x7b\"_type\": \"Binary\", \"operator\": \"<\", \"left\": " ++
  "\x7b\"_type\": \"Access\", \"name\": \"i\"\x7d, \"right\": \x7b\"_type\": " ++
  "\"Literal\", \"value\": \x7b\"kind\": \"Integer\", \"value\": \"13\"\x7d\x7d\x7d, " ++
  "\"statements\": [\x7b\"_type\": \"Assignment\", \"receiver\": \x7b\"_type\": " ++
  "\"Access\", \"name\": \"x\"\x7d, \"value\": \x7b\"_type\": \"Binary\", " ++
  "\"operator\": \"*\", \"left\": \x7b\"_type\": \"Access\", \"name\": \"x\"\x7d, " ++
  "\"right\": \x7b\"_type\": \"Access\", \"name\": \"x\"\x7d\x7d\x7d, \x7b\"_type\": " ++
  "\"Assignment\", \"receiver\": \x7b\"_type\": \"Access\", \"name\": \"i\"\x7d, " ++
  "\"value\": \x7b\"_type\": \"Binary\", \"operator\": \"+\", \"left\": \x7b\"_type\": " ++
  "\"Access\", \"name\": \"i\"\x7d, \"right\": \x7b\"_type\": \"Literal\", \"value\": " ++
  "\x7b\"kind\": \"Integer\", \"value\": \"1\"\x7d\x7d\x7d\x7d]\x7d, \x7b\"_type\": " ++
  "\"Return\", \"value\": \x7b\"_type\": \"Access\", \"name\": \"x\"\x7d\x7d]\x7d]\x7d"

/-- The document in that text. -/
def squaresDocument : Json :=
  mainDocument
    [declaration "x" "10", declaration "i" "0",
     Document.ofForm .whileLoop
      [("condition", binaryDocument "<" (access "i") (literalDocument "13")),
       ("statements", .array
        [assignment "x" (binaryDocument "*" (access "x") (access "x")),
         assignment "i" (binaryDocument "+" (access "i") (literalDocument "1"))])],
     Document.ofForm .returning [("value", access "x")]]
where
  access (name : String) : Json :=
    Document.ofForm .access [("name", .string name)]
  declaration (name digits : String) : Json :=
    Document.ofForm .declaration [("name", .string name), ("value", literalDocument digits)]
  assignment (name : String) (value : Json) : Json :=
    Document.ofForm .assignment [("receiver", access name), ("value", value)]

/-- The program in that document. -/
def squares : Source :=
  mainSource
    [.declaration "x" none (some (integer 10)) none, .declaration "i" none (some (integer 0)) none,
     .whileLoop (.binary "<" (access "i") (integer 13) none)
      [.assignment (access "x") (.binary "*" (access "x") (access "x") none),
       .assignment (access "i") (.binary "+" (access "i") (integer 1) none)],
     .returning (access "x")]
where
  access (name : Text) : Expr := .access name none none
  integer (n : Int) : Expr := .literal (.integer n) none

set_option maxRecDepth 8000 in
theorem ofText?_squaresText : Json.ofText? squaresText = some squaresDocument := by
  unfold Json.ofText? squaresText
  simp only [String.toList_append]
  repeat rw [show String.toList _ = _ from String.toList_ofList]
  rfl

theorem toSource_squaresDocument : Document.toSource squaresDocument = .ok squares := by
  cbv

/-- A program that passes the check and ends in no exit status: what it answers is too long for a
text, and so for the line that would tell of it. -/
theorem run_breaks_squares :
    squares.Accepted .initial ∧
    run ["p.json"] (fun _ => .text squaresText) 60 = ⟨.broken .integerText, "", ""⟩ := by
  refine ⟨by decide +kernel, ?_⟩
  have hread : readArguments ["p.json"] = .go ⟨"p.json", false, false, false⟩ := by decide
  rw [run_of_go hread, Options.runFound_of_source ofText?_squaresText toSource_squaresDocument]
  decide +kernel

end CommandLine

end Parlance
