/-
The command line and the library.

The command line does not call what checks and runs a program for a host.  It goes through the same
steps on its own, makes a line of each fault, and keeps a log.  It comes to the same all the same:
what is written is what the library writes, an integer becomes the exit status if it can be one, and
a fault becomes a diagnostic that says where it has arisen.

Between the check and the evaluation the command line adds a record to the log, and the library may
be given a stream of another encoding.  So the evaluation begins in a store that differs from that
of the library, but only in what no evaluation reads.  It is noticed only when the output stream of
the command line refuses a text that the library's stream takes.
-/
import Parlance.CommandLine.Basic
import Parlance.Proofs.Paired.Streams

namespace Parlance

/-! ### Texts -/

@[simp] theorem Text.append_empty (t : Text) : t ++ ("" : Text) = t :=
  ext_toList ((toList_append t "").trans (by simp [toList]))

@[simp] theorem Text.empty_append (t : Text) : ("" : Text) ++ t = t :=
  ext_toList ((toList_append "" t).trans (by simp [toList]))

/-! ### What the library makes of a document -/

namespace Document

/-- Reads a tree, checks it and evaluates it. -/
def run (d : Json) (fuel : Nat) : Eval Value := do
  let s ← Eval.lift ((toSource d).mapError .document)
  return .integer (← s.run .none fuel)

/-- Reads a tree and evaluates it, without a check. -/
def evaluate (d : Json) (fuel : Nat) : Eval Value := do
  let s ← Eval.lift ((toSource d).mapError .document)
  s.evaluate .none fuel

/-- The document is read as a tree that passes the check. -/
def Accepted (d : Json) : Prop :=
  ∃ s, toSource d = .ok s ∧ (s.analyze .none .initial).verdict = .ok ()

theorem run_of_source {d : Json} {s : Source} (h : toSource d = .ok s) (fuel : Nat) (σ : Store) :
    run d fuel σ = (s.run .none fuel >>= fun n => pure (.integer n)) σ := by
  unfold run
  rw [h]
  rfl

theorem evaluate_of_source {d : Json} {s : Source} (h : toSource d = .ok s) (fuel : Nat)
    (σ : Store) : evaluate d fuel σ = s.evaluate .none fuel σ := by
  unfold evaluate
  rw [h]
  rfl

theorem stops_of_fault {d : Json} {f : DocumentFault} (h : toSource d = .error f) (fuel : Nat)
    (σ : Store) : run d fuel σ = .error (.fault (.document f)) σ ∧
      evaluate d fuel σ = .error (.fault (.document f)) σ := by
  unfold run evaluate
  rw [h]
  exact ⟨rfl, rfl⟩

end Document

/-- What an evaluation answers has a text, since that goes into the log. -/
theorem Source.text_of_evaluate {s : Source} {host : Host} {fuel : Nat} {σ τ : Store} {v : Value}
    (h : s.evaluate host fuel σ = .ok v τ) : ∃ t, v.text = .ok t := by
  obtain ⟨_, _, -, henter⟩ := Eval.bind_ok.mp (show ((host.evaluator σ).1.declareSource fuel s
    >>= fun _ => (host.evaluator σ).1.enter fuel) (host.evaluator σ).2 = .ok v τ from h)
  obtain ⟨_, _, -, henter⟩ := Eval.bind_ok.mp henter
  obtain ⟨_, _, -, henter⟩ := Eval.bind_ok.mp henter
  obtain ⟨x, _, -, henter⟩ := Eval.bind_ok.mp henter
  obtain ⟨t, _, htext, henter⟩ := Eval.bind_ok.mp henter
  obtain ⟨_, _, -, henter⟩ := Eval.bind_ok.mp henter
  cases henter
  cases ht : v.text with
  | ok t => exact ⟨t, rfl⟩
  | error l =>
    rw [Eval.text, ht] at htext
    cases htext

/-- Whether a source passes the check does not depend on the stream. -/
theorem Source.verdict_opened (s : Source) (stream : Encoding) :
    (s.analyze .none (.opened stream)).verdict = (s.analyze .none .initial).verdict := by
  have hsame : (s.analyze .none .initial).SameState (s.analyze .none (.opened stream)) :=
    s.analyze_sameState .none ⟨stream, #[], rfl⟩
  generalize s.analyze .none .initial = a at hsame
  generalize s.analyze .none (.opened stream) = b at hsame
  cases hsame
  rfl

/-- **The library does not see to which stream it writes.** -/
theorem Document.run_across (d : Json) {first second : Encoding}
    (htakes : ∀ t, first.takes t = true → second.takes t = true) (fuel : Nat) :
    RunsAcross first second (run d fuel (.opened first)) (run d fuel (.opened second)) ∧
      RunsAcross first second (evaluate d fuel (.opened first))
        (evaluate d fuel (.opened second)) := by
  cases hs : toSource d with
  | error f =>
    obtain ⟨hrun, hevaluate⟩ := stops_of_fault hs fuel (.opened first)
    obtain ⟨hrun', hevaluate'⟩ := stops_of_fault hs fuel (.opened second)
    rw [hrun, hrun', hevaluate, hevaluate']
    exact ⟨.stop rfl, .stop rfl⟩
  | ok s =>
    have hsame : (Store.opened first).SameState (.opened second) := ⟨second, #[], rfl⟩
    rw [run_of_source hs, run_of_source hs, evaluate_of_source hs, evaluate_of_source hs]
    exact ⟨(Source.run_across hsame htakes fuel).bind fun n _ _ h => .answer h,
      Source.evaluate_across hsame htakes fuel⟩

namespace CommandLine

/-! ### Arguments -/

/-- A command line that asks for these options. -/
def Options.arguments (o : Options) : List Text :=
  (if o.verbose then [("--verbose" : Text)] else [])
    ++ (if o.noCheck then [("--no-check" : Text)] else [])
    ++ (if o.checkOnly then [("--check-only" : Text)] else []) ++ [o.file]

theorem readArguments_arguments {o : Options} (hne : o.file ≠ "")
    (hflag : o.file.toList.head? ≠ some (.char '-')) (hx : (o.noCheck && o.checkOnly) = false) :
    readArguments o.arguments = .go o := by
  obtain ⟨file, noCheck, checkOnly, verbose⟩ := o
  have notFlag {a : Text} (ha : a.toList.head? = some (.char '-')) : file ≠ a := by
    rintro rfl
    exact hflag ha
  have h1 := notFlag (a := "--help") (by decide)
  have h2 := notFlag (a := "-h") (by decide)
  have h3 := notFlag (a := "--no-check") (by decide)
  have h4 := notFlag (a := "--check-only") (by decide)
  have h5 := notFlag (a := "--verbose") (by decide)
  cases noCheck <;> cases checkOnly <;> cases verbose <;>
    simp_all [readArguments, readFrom, Options.arguments, Options.request, Options.start]

/-! ### The log -/

/-- What is left behind when this has been written to the error stream first. -/
def Result.after (r : Result) (log : Text) : Result :=
  { r with stderr := log ++ r.stderr }

/-- The same options without a log. -/
def Options.quiet (o : Options) : Options :=
  { o with verbose := false }

theorem Options.ended_after (o : Options) (σ : Store) (status : Nat) (text : Text) :
    o.ended σ status text = (o.quiet.ended σ status text).after (logLines o.verbose σ.log) := by
  simp [ended, quiet, Result.after, logLines]

theorem Options.stopped_after (o : Options) (σ : Store) (stop : Stop) :
    o.stopped σ stop = (o.quiet.stopped σ stop).after (logLines o.verbose σ.log) := by
  cases stop with
  | outOfFuel => simp [stopped, quiet, Result.after, logLines]
  | fault f =>
    simp only [stopped]
    split
    · exact o.ended_after σ 1 _
    · simp [quiet, Result.after, logLines]

theorem Options.answered_after (o : Options) (σ : Store) (v : Value) :
    o.answered σ v = (o.quiet.answered σ v).after (logLines o.verbose σ.log) := by
  cases v with
  | integer n =>
    simp only [answered]
    split
    · exact o.ended_after σ _ _
    · split
      · exact o.ended_after σ 1 _
      · exact o.stopped_after σ _
  | _ => exact o.ended_after σ 1 _

theorem Options.evaluate_after (o : Options) (fuel : Nat) (s : Source) (σ : Store) :
    ∃ log, ∀ verbose, { o with verbose }.evaluate fuel s σ
      = (o.quiet.evaluate fuel s σ).after (logLines verbose log) := by
  unfold evaluate
  split
  · next v τ _ => exact ⟨τ.log, fun verbose => { o with verbose }.answered_after τ v⟩
  · next stop τ _ => exact ⟨τ.log, fun verbose => { o with verbose }.stopped_after τ stop⟩

theorem Options.perform_after (o : Options) (fuel : Nat) (stdout : Encoding) (s : Source) :
    ∃ log, ∀ verbose, { o with verbose }.perform fuel stdout s
      = (o.quiet.perform fuel stdout s).after (logLines verbose log) := by
  obtain ⟨file, noCheck, checkOnly, verbose⟩ := o
  cases noCheck with
  | true => exact Options.evaluate_after ⟨file, true, checkOnly, verbose⟩ fuel s (.opened stdout)
  | false =>
    simp only [perform, quiet, if_false, Bool.false_eq_true]
    split
    · next σ _ => exact ⟨σ.log, fun verbose => Options.stopped_after ⟨file, _, _, verbose⟩ σ _⟩
    · next s _ σ _ =>
      cases checkOnly with
      | true => exact ⟨_, fun verbose => Options.ended_after ⟨file, _, _, verbose⟩ _ 0 ""⟩
      | false => exact Options.evaluate_after ⟨file, false, false, verbose⟩ fuel s _

/-- **A log is all that is added to a run when it is asked for**, before what else is written to the
error stream. -/
theorem Options.load_after (o : Options) (fuel : Nat) (stdout : Encoding) (d : Json) :
    ∃ log, ∀ verbose, { o with verbose }.load fuel stdout d
      = (o.quiet.load fuel stdout d).after (logLines verbose log) := by
  unfold load
  split
  · exact ⟨#[], fun verbose => { o with verbose }.stopped_after .initial _⟩
  · next s _ => exact o.perform_after fuel stdout s

/-! ### What is told of a program -/

/-- How a diagnostic begins that tells of a fault. -/
def stageLabel : Stage → Text
  | .analysis => "analysis error: "
  | .evaluation => "runtime error: "
  | .plain => "error: "

theorem faultDiagnostic_eq (r : Fault.Report) :
    faultDiagnostic r = diagnostic (stageLabel r.stage ++ r.kind ++ ": " ++ r.message) := by
  obtain ⟨stage, kind, message⟩ := r
  cases stage <;> rfl

/-- What the command line leaves behind, logs aside, where the library ends in some way.  Neither
knows of the limits on numbers, nor of texts that the stream refuses, and so these come through. -/
inductive Tells : EStateM.Result Stop Store Value → Result → Prop
  | exit {n : Int} {τ : Store} (h : 0 ≤ n ∧ n ≤ 255) :
      Tells (.ok (.integer n) τ) ⟨.exit n.toNat, τ.output, ""⟩
  | outside {n : Int} {t : String} {τ : Store} (h : ¬(0 ≤ n ∧ n ≤ 255))
      (ht : Value.integerText n = .ok t) :
      Tells (.ok (.integer n) τ)
        ⟨.exit 1, τ.output,
          diagnostic ("main/0 returned " ++ t ++ ", outside the exit status range 0..255")⟩
  | other {v : Value} {τ : Store} (h : ∀ n, v ≠ .integer n) :
      Tells (.ok v τ)
        ⟨.exit 1, τ.output,
          diagnostic ("runtime error: RuntimeTypeError: main/0 returned " ++ v.kind)⟩
  /-- The library has refused the same value. -/
  | refused {kind : Text} {τ : Store} :
      Tells (.error (.fault (.run (.mainResult kind))) τ)
        ⟨.exit 1, τ.output,
          diagnostic ("runtime error: RuntimeTypeError: main/0 returned " ++ kind)⟩
  | fault {f : Fault} {r : Fault.Report} {τ : Store} (h : f.report = .ok r) :
      Tells (.error (.fault f) τ)
        ⟨.exit 1, τ.output, diagnostic (stageLabel r.stage ++ r.kind ++ ": " ++ r.message)⟩
  | broken {f : Fault} {l : Limit} {τ : Store} (h : f.report = .error l) :
      Tells (.error (.fault f) τ) ⟨.broken l, τ.output, ""⟩
  | outOfFuel {τ : Store} : Tells (.error .outOfFuel τ) ⟨.outOfFuel, τ.output, ""⟩

@[simp] theorem Options.ended_quiet (o : Options) (σ : Store) (status : Nat) (text : Text) :
    o.quiet.ended σ status text = ⟨.exit status, σ.output, text⟩ := by
  simp [ended, quiet, logLines]

theorem Options.tells_stopped (o : Options) (σ : Store) (stop : Stop) :
    Tells (.error stop σ) (o.quiet.stopped σ stop) := by
  cases stop with
  | outOfFuel => exact .outOfFuel
  | fault f =>
    cases hf : f.report with
    | error l =>
      simp only [stopped, hf]
      exact .broken hf
    | ok r =>
      simp only [stopped, hf, ended_quiet, faultDiagnostic_eq]
      exact .fault hf

theorem Options.answered_integer (o : Options) (σ : Store) {n : Int} {t : String}
    (ht : Value.integerText n = .ok t) :
    Tells (.ok (.integer n) σ) (o.quiet.answered σ (.integer n)) := by
  by_cases hn : 0 ≤ n ∧ n ≤ 255
  · simp only [answered, if_pos hn, ended_quiet]
    exact .exit hn
  · simp only [answered, if_neg hn, ht, ended_quiet]
    exact .outside hn ht

theorem Options.answered_other (o : Options) (σ : Store) {v : Value} (hv : ∀ n, v ≠ .integer n) :
    o.quiet.answered σ v = ⟨.exit 1, σ.output,
      diagnostic ("runtime error: RuntimeTypeError: main/0 returned " ++ v.kind)⟩ := by
  cases v with
  | integer n => exact (hv n rfl).elim
  | _ =>
    simp only [answered, ended_quiet]
    rfl

/-- An evaluation by the command line, in whatever store, is told as it ends. -/
theorem Options.tells_evaluate (o : Options) (fuel : Nat) (s : Source) (σ : Store) :
    Tells (s.evaluate .none fuel σ) (o.quiet.evaluate fuel s σ) := by
  unfold evaluate EStateM.run
  cases hr : s.evaluate .none fuel σ with
  | error stop τ => exact o.tells_stopped τ stop
  | ok v τ =>
    by_cases hv : ∃ n, v = .integer n
    · obtain ⟨n, rfl⟩ := hv
      obtain ⟨t, ht⟩ := Source.text_of_evaluate hr
      obtain ⟨t, ht, -⟩ := bind_ok.mp ht
      exact o.answered_integer τ ht
    · have hv n : v ≠ .integer n := fun h => hv ⟨n, h⟩
      simp only [o.answered_other τ hv]
      exact .other hv

/-- An answer that is no integer is told as its refusal is. -/
theorem Tells.of_exitValue {x : Eval Value} {σ : Store} {r : Result} (h : Tells (x σ) r) :
    Tells ((x >>= fun v => Source.exitValue v >>= fun n => pure (.integer n)) σ) r := by
  cases hx : x σ with
  | error stop τ =>
    rw [Eval.bind_error hx]
    rwa [hx] at h
  | ok v τ =>
    rw [Eval.bind_apply hx]
    rw [hx] at h
    cases v with
    | integer n => exact h
    | _ =>
      cases h
      exact .refused

/-- Of an ending there is nothing told but the output. -/
theorem Tells.across {first second : Encoding} {x y : EStateM.Result Stop Store Value} {r : Result}
    (hruns : RunsAcross first second x y) (h : Tells x r) :
    Tells y r ∨ (∃ t, ¬first.takes t = true ∧ second.takes t = true) ∧
      ∃ τ, x = .error (.fault .encoding) τ := by
  cases hruns with
  | answer hout =>
    cases h with
    | exit hn => exact .inl (hout ▸ .exit hn)
    | outside hn ht => exact .inl (hout ▸ .outside hn ht)
    | other hv => exact .inl (hout ▸ .other hv)
  | stop hout =>
    cases h with
    | refused => exact .inl (hout ▸ .refused)
    | fault hf => exact .inl (hout ▸ .fault hf)
    | broken hf => exact .inl (hout ▸ .broken hf)
    | outOfFuel => exact .inl (hout ▸ .outOfFuel)
  | refused hrefused htaken => exact .inr ⟨⟨_, hrefused, htaken⟩, _, rfl⟩

/-- A record in the log does not show in a run. -/
theorem Tells.of_report {s : Source} {σ : Store} {record : LogRecord} {fuel : Nat} {r : Result}
    (h : Tells (s.evaluate .none fuel (σ.report record)) r) :
    Tells (s.evaluate .none fuel σ) r := by
  have hsame : (σ.report record).SameState σ := ⟨σ.encoding, σ.log, rfl⟩
  refine (h.across (Source.evaluate_across hsame (fun _ ht => ht) fuel)).resolve_right ?_
  rintro ⟨⟨t, hrefused, htaken⟩, -⟩
  exact hrefused htaken

/-- A program is told as the library runs it. -/
theorem Options.tells_checked {o : Options} (hcheck : o.noCheck = false)
    (honly : o.checkOnly = false) (fuel : Nat) (stdout : Encoding) (s : Source) :
    Tells ((s.run .none fuel >>= fun n => pure (.integer n)) (.opened stdout))
      (o.quiet.perform fuel stdout s) := by
  have hrun {t : Source} {v : Except Fault Unit} {σ : Store}
      (h : s.analyze .none (.opened stdout) = ⟨t, v, σ⟩) : s.run .none fuel (.opened stdout)
        = (Eval.lift v >>= fun _ => t.evaluate .none fuel >>= Source.exitValue) σ := by
    change Source.finish (s.analyze .none (.opened stdout)) .none fuel (.opened stdout) = _
    rw [h]
    rfl
  simp only [perform, quiet, hcheck, honly, Bool.false_eq_true, if_false]
  split
  · next t f σ h =>
    rw [Eval.bind_error (hrun h)]
    exact tells_stopped ⟨o.file, false, false, false⟩ σ _
  · next t _ σ h =>
    have htells := (tells_evaluate ⟨o.file, false, false, false⟩ fuel t
      (σ.report (.passed o.file))).of_report
    have hassoc : (s.run .none fuel >>= fun n => pure (.integer n)) (.opened stdout)
        = (t.evaluate .none fuel >>= fun v => Source.exitValue v >>= fun n =>
            pure (Value.integer n)) σ := by
      rw [← bind_assoc]
      simp only [bind, EStateM.bind, hrun h]
      rfl
    rw [hassoc]
    exact htells.of_exitValue

/-- A program is told as the library evaluates it. -/
theorem Options.tells_unchecked {o : Options} (hcheck : o.noCheck = true) (fuel : Nat)
    (stdout : Encoding) (s : Source) :
    Tells (s.evaluate .none fuel (.opened stdout)) (o.quiet.perform fuel stdout s) := by
  have hperform : o.quiet.perform fuel stdout s
      = o.quiet.evaluate fuel s (.opened stdout) := by
    simp [perform, quiet, hcheck]
  exact hperform ▸ o.tells_evaluate fuel s (.opened stdout)

/-- A fault is never told by the exit status of a check that passes. -/
theorem Options.stopped_ending (o : Options) (σ : Store) (stop : Stop) :
    (o.stopped σ stop).ending ≠ .exit 0 := by
  cases stop with
  | outOfFuel => exact nofun
  | fault f =>
    simp only [stopped]
    split
    · exact nofun
    · exact nofun

theorem Options.stopped_stdout (o : Options) (σ : Store) (stop : Stop) :
    (o.stopped σ stop).stdout = σ.output := by
  cases stop with
  | outOfFuel => rfl
  | fault f =>
    simp only [stopped]
    split
    · rfl
    · rfl

/-- A program that is only checked writes nothing, and ends well exactly when it passes. -/
theorem Options.perform_checkOnly {o : Options} (hcheck : o.noCheck = false)
    (honly : o.checkOnly = true) (fuel : Nat) (stdout : Encoding) (s : Source) :
    (o.quiet.perform fuel stdout s).stdout = "" ∧
      ((o.quiet.perform fuel stdout s).ending = .exit 0 ↔
        (s.analyze .none .initial).verdict = .ok ()) := by
  have hout : (s.analyze .none (.opened stdout)).store.output = "" :=
    (s.analyze_continues .none (.opened stdout)).output
  rw [← s.verdict_opened stdout]
  simp only [perform, quiet, hcheck, honly, Bool.false_eq_true, if_false, if_true]
  split
  · next f σ h =>
    rw [h] at hout ⊢
    exact ⟨(stopped_stdout _ σ _).trans hout, fun hok => (stopped_ending _ _ _ hok).elim, nofun⟩
  · next σ h =>
    rw [h] at hout ⊢
    exact ⟨hout, fun _ => rfl, fun _ => rfl⟩

/-! ### What is told of a document -/

variable {o : Options} {d : Json}

theorem Options.load_run (hcheck : o.noCheck = false) (honly : o.checkOnly = false) (fuel : Nat)
    (stdout : Encoding) (d : Json) :
    Tells (Document.run d fuel (.opened stdout)) (o.quiet.load fuel stdout d) := by
  unfold load
  cases hs : Document.toSource d with
  | error f =>
    rw [(Document.stops_of_fault hs fuel (.opened stdout)).1]
    exact o.tells_stopped (.opened stdout) _
  | ok s =>
    rw [Document.run_of_source hs]
    exact tells_checked hcheck honly fuel stdout s

theorem Options.load_evaluate (hcheck : o.noCheck = true) (fuel : Nat) (stdout : Encoding)
    (d : Json) :
    Tells (Document.evaluate d fuel (.opened stdout)) (o.quiet.load fuel stdout d) := by
  unfold load
  cases hs : Document.toSource d with
  | error f =>
    rw [(Document.stops_of_fault hs fuel (.opened stdout)).2]
    exact o.tells_stopped (.opened stdout) _
  | ok s =>
    rw [Document.evaluate_of_source hs]
    exact tells_unchecked hcheck fuel stdout s

theorem Options.load_checkOnly (hcheck : o.noCheck = false) (honly : o.checkOnly = true)
    (fuel : Nat) (stdout : Encoding) (d : Json) :
    (o.quiet.load fuel stdout d).stdout = "" ∧
      ((o.quiet.load fuel stdout d).ending = .exit 0 ↔ Document.Accepted d) := by
  unfold load
  cases hs : Document.toSource d with
  | error f =>
    refine ⟨o.quiet.stopped_stdout .initial _, fun hok => (stopped_ending _ _ _ hok).elim, ?_⟩
    rintro ⟨s, hs', -⟩
    cases hs.symm.trans hs'
  | ok s =>
    obtain ⟨hout, hending⟩ := perform_checkOnly hcheck honly fuel stdout s
    refine ⟨hout, hending.trans ⟨fun h => ⟨s, hs, h⟩, ?_⟩⟩
    rintro ⟨s', hs', h⟩
    cases hs.symm.trans hs'
    exact h

/-! ### The command line as a whole -/

theorem run_of_text {arguments : List Text} (hread : readArguments arguments = .go o)
    {files : Text → Found} {content : String} (hfile : files o.file = .text content)
    (hcontent : Json.ofText? content = some d) (fuel : Nat) (stdout : Encoding) :
    run arguments files fuel stdout = o.load fuel stdout d := by
  simp only [run, hread, Options.runFound, hfile, hcontent]

/-- What the command line leaves behind, logs aside, is told by what the library comes to.  This is
so where the library writes to a stream of the same encoding, and also to one that takes more, as
long as the command line does not stop for a text that only its own stream refuses. -/
structure Agrees (stdout : Encoding) (library : Eval Value) (quiet : Result) : Prop where
  same : Tells (library (.opened stdout)) quiet
  wider : ∀ out : Encoding, (∀ t, stdout.takes t = true → out.takes t = true) →
    Tells (library (.opened out)) quiet ∨
      (∃ t, ¬stdout.takes t = true ∧ out.takes t = true) ∧
        ∃ τ, library (.opened stdout) = .error (.fault .encoding) τ

/-- **The command line agrees with the library.** Whatever options are asked for, with a file whose
name is no flag and whose text is a document, it leaves behind what the library comes to: after
checking and running, after evaluating alone, or after checking alone.  Asking for the log adds its
lines to the error stream and changes nothing else. -/
theorem run_agrees (hname : o.file ≠ "") (hflag : o.file.toList.head? ≠ some (.char '-'))
    (hexclusive : (o.noCheck && o.checkOnly) = false) {files : Text → Found} {content : String}
    (hfile : files o.file = .text content) (hcontent : Json.ofText? content = some d)
    (fuel : Nat) (stdout : Encoding) :
    (∀ verbose, readArguments { o with verbose }.arguments = .go { o with verbose }) ∧
    ∃ quiet log,
      (∀ verbose arguments, readArguments arguments = .go { o with verbose } →
        run arguments files fuel stdout = quiet.after (logLines verbose log)) ∧
      (o.noCheck = false → o.checkOnly = false → Agrees stdout (Document.run d fuel) quiet) ∧
      (o.noCheck = true → Agrees stdout (Document.evaluate d fuel) quiet) ∧
      (o.checkOnly = true → quiet.stdout = "" ∧
        (quiet.ending = .exit 0 ↔ Document.Accepted d)) := by
  refine ⟨fun verbose => readArguments_arguments hname hflag hexclusive, ?_⟩
  obtain ⟨log, hlog⟩ := o.load_after fuel stdout d
  refine ⟨o.quiet.load fuel stdout d, log, fun verbose arguments hread => ?_,
    fun hcheck honly => ?_, fun hcheck => ?_, fun honly => ?_⟩
  · rw [run_of_text hread hfile hcontent]
    exact hlog verbose
  · have htells := Options.load_run hcheck honly fuel stdout d
    exact ⟨htells, fun out htakes => htells.across (Document.run_across d htakes fuel).1⟩
  · have htells := Options.load_evaluate hcheck fuel stdout d
    exact ⟨htells, fun out htakes => htells.across (Document.run_across d htakes fuel).2⟩
  · have hcheck : o.noCheck = false := by
      simpa only [honly, Bool.and_true] using hexclusive
    exact Options.load_checkOnly hcheck honly fuel stdout d

/-! ### A program in a file -/

/-- The text of a program that greets and answers three. -/
def greetingText : String :=
  "\x7b\"_type\": \"Source\", \"methods\": [\x7b\"_type\": \"Method\", \"name\": \"main\", " ++
  "\"return_type_name\": \"Integer\", \"statements\": [" ++
  "\x7b\"_type\": \"ExpressionStmt\", " ++
  "\"expression\": \x7b\"_type\": \"Call\", \"name\": \"print\", " ++
  "\"arguments\": [\x7b\"_type\": \"Literal\", " ++
  "\"value\": \x7b\"kind\": \"String\", \"value\": \"hello\"\x7d\x7d]\x7d\x7d, " ++
  "\x7b\"_type\": \"Return\", \"value\": \x7b\"_type\": \"Literal\", " ++
  "\"value\": \x7b\"kind\": \"Integer\", \"value\": \"3\"\x7d\x7d\x7d]\x7d]\x7d"

/-- The document in that text. -/
def greetingDocument : Json :=
  Document.ofForm .source
    [("methods", .array
      [Document.ofForm .method
        [("name", .string "main"), ("return_type_name", .string "Integer"),
         ("statements", .array
          [Document.ofForm .expression
            [("expression", Document.ofForm .call
              [("name", .string "print"),
               ("arguments", .array
                [Document.ofForm .literal
                  [("value", Document.payload "String" (.string "hello"))]])])],
           Document.ofForm .returning
            [("value", Document.ofForm .literal
              [("value", Document.payload "Integer" (.string "3"))])]])]])]

/-- The program in that document. -/
def greeting : Source where
  fields := []
  methods :=
    [.method ⟨"main", [], [], some "Integer",
      [.expression (.call "print" [.literal (.string "hello") none] none none),
       .returning (.literal (.integer 3) none)], none⟩]

set_option maxRecDepth 2000 in
theorem ofText?_greetingText : Json.ofText? greetingText = some greetingDocument := by
  unfold Json.ofText? greetingText
  simp only [String.toList_append]
  repeat rw [show String.toList _ = _ from String.toList_ofList]
  rfl

theorem toSource_greetingDocument : Document.toSource greetingDocument = .ok greeting := by
  cbv

/-- The library answers three, and a line has been written. -/
theorem run_greetingDocument :
    ∃ τ, Document.run greetingDocument 20 (.opened .utf8) = .ok (.integer 3) τ ∧
      τ.output = "hello\n" := by
  rw [Document.run_of_source toSource_greetingDocument]
  exact ⟨_, Eval.eq_of_answer? (by decide +kernel), by decide +kernel⟩

theorem run_agrees_greeting :
    Json.ofText? greetingText = some greetingDocument ∧
    run ["p.json"] (fun _ => .text greetingText) 20 = ⟨.exit 3, "hello\n", ""⟩ ∧
    ∃ log, run ["--verbose", "p.json"] (fun _ => .text greetingText) 20
      = ⟨.exit 3, "hello\n", logLines true log⟩ := by
  refine ⟨ofText?_greetingText, ?_⟩
  obtain ⟨-, quiet, log, hrun, htells, -, -⟩ :=
    @run_agrees ⟨"p.json", false, false, false⟩ greetingDocument
      (by decide) (by decide) rfl (fun _ => .text greetingText) greetingText rfl
      ofText?_greetingText 20 .utf8
  obtain ⟨τ, hτ, hout⟩ := run_greetingDocument
  have htells := (htells rfl rfl).same
  rw [hτ] at htells
  cases htells with
  | exit h =>
    rw [hout] at hrun
    refine ⟨(hrun false _ rfl).trans ?_, log, (hrun true _ rfl).trans ?_⟩
    · simp [Result.after, logLines]
    · simp [Result.after]
  | outside h _ => exact (h (by decide)).elim
  | other h => exact (h 3 rfl).elim

/-- The text of a program that writes a surrogate on its own and answers zero. -/
def lonelyText : String :=
  "\x7b\"_type\": \"Source\", \"methods\": [\x7b\"_type\": \"Method\", \"name\": \"main\", " ++
  "\"return_type_name\": \"Integer\", \"statements\": [" ++
  "\x7b\"_type\": \"ExpressionStmt\", " ++
  "\"expression\": \x7b\"_type\": \"Call\", \"name\": \"print\", " ++
  "\"arguments\": [\x7b\"_type\": \"Literal\", " ++
  "\"value\": \x7b\"kind\": \"String\", \"value\": \"\\ud800\"\x7d\x7d]\x7d\x7d, " ++
  "\x7b\"_type\": \"Return\", \"value\": \x7b\"_type\": \"Literal\", " ++
  "\"value\": \x7b\"kind\": \"Integer\", \"value\": \"0\"\x7d\x7d\x7d]\x7d]\x7d"

/-- The text that it writes before the line ends. -/
def lonelyString : Text :=
  .singleton (.surrogate ⟨0, by decide⟩)

/-- The document in that text. -/
def lonelyDocument : Json :=
  Document.ofForm .source
    [("methods", .array
      [Document.ofForm .method
        [("name", .string "main"), ("return_type_name", .string "Integer"),
         ("statements", .array
          [Document.ofForm .expression
            [("expression", Document.ofForm .call
              [("name", .string "print"),
               ("arguments", .array
                [Document.ofForm .literal
                  [("value", Document.payload "String" (.string lonelyString))]])])],
           Document.ofForm .returning
            [("value", Document.ofForm .literal
              [("value", Document.payload "Integer" (.string "0"))])]])]])]

set_option maxRecDepth 20000 in
theorem ofText?_lonelyText : Json.ofText? lonelyText = some lonelyDocument := by
  unfold Json.ofText? lonelyText
  simp only [String.toList_append]
  repeat rw [show String.toList _ = _ from String.toList_ofList]
  rfl

/-- The program in that document. -/
def lonely : Source where
  fields := []
  methods :=
    [.method ⟨"main", [], [], some "Integer",
      [.expression (.call "print" [.literal (.string lonelyString) none] none none),
       .returning (.literal (.integer 0) none)], none⟩]

theorem toSource_lonelyDocument : Document.toSource lonelyDocument = .ok lonely := by
  cbv

/-- A stream in UTF-8 has no bytes for the text. -/
theorem run_lonelyDocument :
    ∃ τ, Document.run lonelyDocument 20 (.opened .utf8) = .error (.fault .encoding) τ ∧
      τ.output = "" := by
  rw [Document.run_of_source toSource_lonelyDocument]
  exact ⟨_, Eval.eq_of_stop? (by decide +kernel), by decide +kernel⟩

/-- A file whose name begins as a flag does is never looked for.  And a text that has no bytes in
the encoding of the output stream breaks a run off that a stream in memory lets come to its end. -/
theorem run_disagrees :
    (Json.ofText? greetingText = some greetingDocument ∧
      (∃ τ, Document.run greetingDocument 20 (.opened .utf8) = .ok (.integer 3) τ ∧
        τ.output = "hello\n") ∧
      run ["-p.json"] (fun _ => .text greetingText) 20
        = ⟨.exit 2, "", "plc: unknown flag '-p.json'\n"⟩) ∧
    Json.ofText? lonelyText = some lonelyDocument ∧
      (∃ τ, Document.run lonelyDocument 20 .initial = .ok (.integer 0) τ ∧
        τ.output = lonelyString ++ "\n") ∧
      run ["p.json"] (fun _ => .text lonelyText) 20 = ⟨.broken .integerText, "", ""⟩ := by
  refine ⟨⟨ofText?_greetingText, run_greetingDocument, by decide⟩, ofText?_lonelyText, ?_, ?_⟩
  · rw [Document.run_of_source toSource_lonelyDocument]
    exact ⟨_, Eval.eq_of_answer? (by decide +kernel), by decide +kernel⟩
  · have hread : readArguments ["p.json"] = .go ⟨"p.json", false, false, false⟩ := by decide
    obtain ⟨τ, hτ, hout⟩ := run_lonelyDocument
    have htells := Options.load_run (o := ⟨"p.json", false, false, false⟩) rfl rfl 20 .utf8
      lonelyDocument
    rw [hτ] at htells
    rw [run_of_text hread rfl ofText?_lonelyText]
    change Tells _ (Options.load ⟨"p.json", false, false, false⟩ 20 .utf8 lonelyDocument) at htells
    generalize Options.load ⟨"p.json", false, false, false⟩ 20 .utf8 lonelyDocument = r at htells ⊢
    cases htells with
    | fault h => cases h
    | broken h =>
      cases h
      rw [hout]
      rfl

end CommandLine

end Parlance
