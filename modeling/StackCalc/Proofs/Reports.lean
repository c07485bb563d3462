/-
  StackCalc.Proofs.Reports

  Reports of failures on the command line.  A report begins with the header of its failure, and
  it can be made unless the failure stands in another text than the one that is reported, and
  the lines of that text are looked for in a file that cannot be read
  (`failureReport_error_iff`).  A script and the words behind it are run one after the other,
  but reported under the name of the script: its own failures always have a report, those in
  the words are lost with their lines (`script_failure_reported`).
-/

import StackCalc.Proofs.Colours
import StackCalc.Proofs.Faults
import StackCalc.Proofs.Origins
import StackCalc.Shell.Run

namespace StackCalc

open Text

/-! ## Lines of other texts -/

/-- A fault of a text, which is found before anything is run or where a word is no number. -/
def Failure.IsOfText (failure : Failure) : Prop := ∃ fault, failure.cause = .source fault

/-- A failure that has no report.  It stands in another text, and it cannot be told whether there
    is a file of that name, or there is one that cannot be read.  For a fault of a text a file is
    read without looking whether there is one. -/
def Failure.Lost (files : Files) (subject : Shell.Subject) (failure : Failure)
    (trouble : FileTrouble) : Prop :=
  ∃ name, failure.text = some name ∧ name ≠ "" ∧ name ≠ subject.name ∧
    ((¬failure.IsOfText ∧ files.isFile name = .error trouble)
      ∨ (failure.IsOfText ∨ files.isFile name = .ok true)
        ∧ (∃ n ∈ failure.line, 0 < n) ∧ files.read name = .error trouble)

namespace Shell

variable {files : Files} {subject : Subject} {failure : Failure} {trouble : FileTrouble}
  {line column : Option Int} {name word : String}

/-- The lines of a file cannot be shown if it is looked at and cannot be read. -/
theorem contextInFile_error_iff :
    contextInFile files name line column word = .error trouble
      ↔ (∃ n ∈ line, 0 < n) ∧ files.read name = .error trouble := by
  unfold contextInFile
  split
  · rename_i n
    cases files.read name with
    | ok content => simp [Except.map]
    | error own => simp [Except.map]
  · rename_i hline
    constructor
    · exact nofun
    · rintro ⟨⟨k, hk, hpositive⟩, -⟩
      obtain ⟨n, rfl⟩ := Int.eq_succ_of_zero_lt hpositive
      exact absurd hk (hline n)

theorem contextIn_error_iff :
    contextIn files subject name line column word = .error trouble
      ↔ name ≠ subject.name ∧ (∃ n ∈ line, 0 < n) ∧ files.read name = .error trouble := by
  unfold contextIn
  split
  · rename_i hname
    simp [hname]
  · rename_i hname
    rw [contextInFile_error_iff]
    exact (and_iff_right hname).symm

theorem map_eq_error_iff {α β ε : Type} {x : Except ε α} {f : α → β} {e : ε} :
    x.map f = .error e ↔ x = .error e := by
  cases x <;> simp [Except.map]

/-- The report of a fault of a text fails with the lines of the text. -/
theorem sourceReport_error_iff {label : String} {fault : SourceError} :
    sourceReport files subject label fault = .error trouble
      ↔ ∃ name, fault.name = some name ∧ name ≠ "" ∧ name ≠ subject.name
        ∧ (∃ n ∈ fault.line, 0 < n) ∧ files.read name = .error trouble := by
  unfold sourceReport
  rw [map_eq_error_iff, contextIn_error_iff]
  cases fault.name with
  | none => simp
  | some name =>
    by_cases hempty : name = ""
    · simp [hempty]
    · simp [hempty]

/-- The lines around a step are not looked for if its text is no file. -/
theorem failureContext_error_iff :
    failureContext files subject failure = .error trouble
      ↔ ∃ name, failure.place.bind (·.origin.name?) = some name ∧ name ≠ "" ∧ name ≠ subject.name
        ∧ (files.isFile name = .error trouble
          ∨ files.isFile name = .ok true ∧ (∃ n ∈ failure.place.bind (·.first), 0 < n)
            ∧ files.read name = .error trouble) := by
  unfold failureContext
  cases failure.place.bind (·.origin.name?) with
  | none => simp [contextIn_error_iff]
  | some name =>
    by_cases hempty : name = ""
    · simp [hempty, contextIn_error_iff]
    by_cases hname : name = subject.name
    · simp [hname, contextIn_error_iff]
    have hcontext := @contextIn_error_iff files subject trouble
      (failure.place.bind (·.first)) (failure.place.bind (·.column?)) name
      (failure.token.getD "")
    rw [and_iff_right hname] at hcontext
    simp only [String.isEmpty_iff, hempty, if_false, hname, Option.some.injEq, exists_eq_left',
      ne_eq, not_false_eq_true, true_and]
    match files.isFile name with
    | .error own => simp
    | .ok false => simp
    | .ok true => simp [hcontext]

/-- The text and the line of a failure that is no fault of a text are those of its step. -/
theorem text_of_step (h : ¬failure.IsOfText) :
    failure.text = failure.place.bind (·.origin.name?)
      ∧ failure.line = failure.place.bind (·.first) := by
  rw [Failure.text, Failure.line]
  split
  · rename_i fault hcause
    exact absurd ⟨fault, hcause⟩ h
  · exact ⟨rfl, rfl⟩

/-- A report cannot be made exactly if its failure is lost. -/
theorem failureReport_error_iff {precision : Option Nat} :
    failureReport files precision subject failure = .error trouble
      ↔ failure.Lost files subject trouble := by
  unfold failureReport
  split
  · rename_i fault hcause
    have htext : failure.IsOfText := ⟨fault, hcause⟩
    simp only [sourceReport_error_iff, Failure.Lost, Failure.text, Failure.line, hcause, htext,
      not_true, false_and, false_or, true_or, true_and]
  · rename_i hcause
    have htext : ¬failure.IsOfText := by
      rintro ⟨fault, hfault⟩
      exact hcause fault hfault
    obtain ⟨hname, hline⟩ := text_of_step htext
    simp only [map_eq_error_iff, failureContext_error_iff, Failure.Lost, hname, hline, htext,
      not_false_eq_true, true_and, false_or]

theorem exists_of_map_eq_ok {α β ε : Type} {x : Except ε α} {f : α → β} {b : β}
    (h : x.map f = .ok b) : ∃ a, b = f a := by
  cases x with
  | error e => cases h
  | ok a => exact ⟨a, (Except.ok.inj h).symm⟩

theorem layOut_header (title detail label context : String) :
    ∃ rest, layOut title detail label context = banner title ++ rest := by
  simp only [layOut, String.append_assoc]
  exact ⟨_, rfl⟩

/-- Whatever report is made of a failure begins with the header of its class. -/
theorem failureReport_header {precision : Option Nat} {report : String}
    (h : failureReport files precision subject failure = .ok report) :
    ∃ rest, report = banner (header failure.cause.category) ++ rest := by
  unfold failureReport at h
  split at h
  · rename_i fault hcause
    -- A fault of a text is a syntax error, whether more text could mend it or not.
    have hheader : header failure.cause.category = "SYNTAX ERROR." := by
      rw [hcause, Cause.category]
      split <;> rfl
    rw [hheader]
    obtain ⟨context, rfl⟩ := exists_of_map_eq_ok h
    exact layOut_header ..
  · obtain ⟨context, rfl⟩ := exists_of_map_eq_ok h
    exact layOut_header ..

/-! ## Scripts -/

/-- A script that can be read, with the name that it is reported under: the standard input, or a
    text in a file. -/
inductive Script (host : Host) : String → String → String → Prop
  | input : Script host "-" "<STDIN>" host.input
  | file {path source : String} (named : path ≠ "-")
      (read : host.files.read (FilePath.normal path) = .ok source) : Script host path path source

variable {host : Host} {path source : String} {words : List String} {options : Options}

/-- What can be read is a file. -/
theorem isFile_of_read (h : files.read (FilePath.normal path) = .ok source) :
    files.isFile path = .ok true := by
  unfold Files.read at h
  unfold Files.isFile
  split at h
  · rename_i content hlook
    rw [hlook]
  all_goals cases h

/-- The run of a script, before the words behind it. -/
def scriptRun (host : Host) (config : Config) (options : Options) (name source : String) :
    Outcome Stack :=
  (host.session config).run source [] (some name) options.verbosity

/-- A script and the words behind it are concluded under the name and the text of the script. -/
theorem runProgram_script (h : Script host path name source) (desk : Desk) :
    runProgram host desk options (.script path words)
      = conclude desk options.stats ⟨name, source⟩
          (runBoth (scriptRun host desk.config options name source) words options.verbosity) := by
  cases h with
  | input => rfl
  | file named read =>
    -- Both are unfolded as they stand, since their equations are slow to derive.
    have hsource : scriptSource host.files name = .ok source := by
      delta scriptSource
      simp only [isFile_of_read read, read]
    have hrun : (host.session desk.config).runFile host.files name [] options.verbosity
        = scriptRun host desk.config options name source := by
      delta Session.runFile
      simp only [read, scriptRun]
    unfold runProgram
    simp only [hsource, hrun]

/-! ## Remarks -/

open Colour

theorem bind_lines (session : Session) (name : String) (program : Program) :
    IsLines (session.bind name program).2 := by
  unfold Session.bind
  dsimp only
  split
  · cases session.library.warning? name with
    | none => exact Or.inl rfl
    | some warning => exact Or.inr ⟨_, rfl⟩
  · exact Or.inl rfl

theorem bindAll_lines {session : Session} {name : Option String} {remarks : String}
    {definitions : List (Lexeme × List Lexeme)} (h : IsLines remarks) :
    IsLines (session.bindAll name remarks definitions).2.2 := by
  induction definitions generalizing session remarks with
  | nil => exact h
  | cons definition rest ih =>
    obtain ⟨head, body⟩ := definition
    rw [Session.bindAll]
    split
    · exact h
    · rename_i program _
      exact ih (h.append (bind_lines session head.text program))

/-- A run remarks whole lines. -/
theorem run_lines (session : Session) (source : String) (stack : Stack) (name : Option String)
    (verbosity : Nat) : IsLines (session.run source stack name verbosity).remarks := by
  unfold Session.run
  split
  · exact Or.inl rfl
  · rename_i clauses hparse
    have hbind : IsLines (session.bindAll name "" (definitionsOf clauses)).2.2 :=
      bindAll_lines (Or.inl rfl)
    split
    · rename_i hbound
      rwa [hbound] at hbind
    · rename_i hbound
      rw [hbound] at hbind
      split
      · exact hbind
      · exact hbind

theorem runBoth_lines {first : Outcome Stack} (h : IsLines first.remarks) (words : List String)
    (verbosity : Nat) : IsLines (runBoth first words verbosity).output.err := by
  unfold runBoth
  dsimp only
  split
  · exact h.append (run_lines ..)
  · exact h

/-! ## Failures of a script and of the words behind it -/

theorem runBoth_error {first : Outcome Stack} {verbosity : Nat} {error : Error}
    (h : (runBoth first words verbosity).result = .error error) :
    first.result = .error error
      ∨ ∃ stack, first.result = .ok stack
        ∧ (first.session.runWords words stack verbosity).result = .error error := by
  unfold runBoth at h
  dsimp only at h
  split at h
  · rename_i stack word rest hfirst
    exact Or.inr ⟨stack, hfirst, h⟩
  · exact Or.inl h

/-- A failure of a script is blamed on the script, also under definitions that it made. -/
theorem scriptRun_standsIn {config : Config}
    (h : (scriptRun host config options name source).result = .error (.failure failure)) :
    failure.StandsIn [name] := by
  have hrun := (host.session config).run_standsIn (Library.fresh_standsIn [name])
    (fun n hn => List.mem_singleton.mpr (Option.some.inj hn).symm) source [] options.verbosity
  exact hrun.2 failure h

/-- A failure of a script and the words behind it is blamed on one of the two. -/
theorem runBoth_standsIn {config : Config}
    (h : (runBoth (scriptRun host config options name source) words options.verbosity).result
      = .error (.failure failure)) :
    failure.StandsIn [name, Session.argumentsName] := by
  -- The words may call what the script has defined, so both names are allowed from the start.
  have hfirst := (host.session config).run_standsIn
    (Library.fresh_standsIn [name, Session.argumentsName])
    (fun n hn => List.mem_cons.mpr (Or.inl (Option.some.inj hn).symm)) source [] options.verbosity
  obtain hfailure | ⟨stack, -, hfailure⟩ := runBoth_error h
  · exact hfirst.2 failure hfailure
  · have hsecond := Session.run_standsIn _ hfirst.1
      (fun n hn => List.mem_cons_of_mem _ (List.mem_singleton.mpr (Option.some.inj hn).symm))
      (" ".intercalate words) stack options.verbosity
    exact hsecond.2 failure hfailure

/-- What stands in the text that is reported is never lost. -/
theorem not_lost (h : failure.StandsIn [subject.name]) : ¬failure.Lost files subject trouble := by
  rintro ⟨name, htext, -, hother, -⟩
  exact hother (List.mem_singleton.mp (h name htext))

/-! ## Reports on the command line -/

/-- A text with or without colours. -/
def dress (plain : Bool) (s : String) : String := if plain then strip s else s

/-- The first words of a report. -/
def opening (plain : Bool) (title : String) : String :=
  if plain then " " ++ title ++ " " else banner title

theorem dressed_eq (x : Output) (plain : Bool) :
    x.dressed plain = ⟨dress plain x.out, dress plain x.err⟩ := by
  cases plain <;> rfl

theorem dress_lines {s : String} (h : IsLines s) (plain : Bool) (t : String) :
    dress plain (s ++ t) = dress plain s ++ dress plain t := by
  cases plain with
  | false => rfl
  | true => exact strip_lines h t

theorem header_plain (category : Category) : escape ∉ (header category).toList := by
  cases category <;> decide

theorem dress_banner (category : Category) (plain : Bool) (rest : String) :
    dress plain (banner (header category) ++ rest)
      = opening plain (header category) ++ dress plain rest := by
  cases plain with
  | false => rfl
  | true =>
    have hblank : escape ∉ " ".toList := by decide
    have hcolours : "30;43".toList.all isParameter = true := by decide
    have hnone : "0".toList.all isParameter = true := by decide
    simp only [dress, opening, if_true, banner, reset, String.append_assoc]
    rw [strip_code hcolours, strip_plain hblank, strip_plain (header_plain category),
      strip_plain hblank, strip_code hnone]

/-- A run that ends with the report of a failure.  Nothing but what the program has printed is
    on the output, so no stack is, and behind all remarks the report begins with the header. -/
structure Result.Reports (result : Result) (prepared : Prepared) (ran : Ran) (failure : Failure) :
    Prop where
  ending : result.ending = .exit 1
  steps : result.steps = none
  written : ∃ rest, result.written =
    ⟨dress prepared.plain ran.output.out,
      prepared.remarks ++ dress prepared.plain ran.output.err
        ++ opening prepared.plain (header failure.cause.category) ++ rest⟩

theorem prepare_files {prepared : Prepared} (h : host.prepare options = .ok prepared) :
    prepared.desk.files = host.files := by
  unfold Host.prepare at h
  split at h
  · cases h
  · obtain ⟨loaded, rfl⟩ := exists_of_map_eq_ok h
    rfl

/-- The command line of a script comes to the conclusion of the script and its words. -/
theorem run_script {arguments : List String} {prepared : Prepared}
    (hinvocation :
      Invocation.ofArguments host.terminal arguments = ⟨options, .script path words⟩)
    (hoption : optionTrouble host options = none) (hprepare : host.prepare options = .ok prepared)
    (hscript : Script host path name source) :
    run host arguments =
      let conclusion := conclude prepared.desk options.stats ⟨name, source⟩
        (runBoth (scriptRun host prepared.desk.config options name source) words options.verbosity)
      { ending := conclusion.ending
        written := Output.append ⟨"", prepared.remarks⟩ (conclusion.output.dressed prepared.plain)
        steps := conclusion.steps
        plain := prepared.plain
        files := host.files } := by
  simp only [run, hinvocation, hoption, perform, runWithSettings, hprepare,
    runProgram_script hscript]

/-- A failure that is lost ends the command without a report. -/
theorem run_script_lost {arguments : List String} {prepared : Prepared}
    (hinvocation :
      Invocation.ofArguments host.terminal arguments = ⟨options, .script path words⟩)
    (hoption : optionTrouble host options = none) (hprepare : host.prepare options = .ok prepared)
    (hscript : Script host path name source)
    (hfailure : (runBoth (scriptRun host prepared.desk.config options name source) words
      options.verbosity).result = .error (.failure failure))
    (hlost : failure.Lost host.files ⟨name, source⟩ trouble) :
    (run host arguments).ending = .crash trouble.label := by
  have hreport : failureReport prepared.desk.files prepared.desk.config.precision ⟨name, source⟩
      failure = .error trouble := by
    rw [prepare_files hprepare]
    exact failureReport_error_iff.mpr hlost
  rw [run_script hinvocation hoption hprepare hscript]
  simp only [conclude, hfailure, errorReport, hreport]

/-- All other failures are reported. -/
theorem run_script_reports {arguments : List String} {prepared : Prepared}
    (hinvocation :
      Invocation.ofArguments host.terminal arguments = ⟨options, .script path words⟩)
    (hoption : optionTrouble host options = none) (hprepare : host.prepare options = .ok prepared)
    (hscript : Script host path name source)
    (hfailure : (runBoth (scriptRun host prepared.desk.config options name source) words
      options.verbosity).result = .error (.failure failure))
    (hfound : ∀ trouble, ¬failure.Lost host.files ⟨name, source⟩ trouble) :
    (run host arguments).Reports prepared
      (runBoth (scriptRun host prepared.desk.config options name source) words options.verbosity)
      failure := by
  have hlines : IsLines (runBoth (scriptRun host prepared.desk.config options name source) words
      options.verbosity).output.err := runBoth_lines (run_lines ..) words options.verbosity
  rw [run_script hinvocation hoption hprepare hscript]
  -- From here on only the result of the run and its remarks matter.
  generalize runBoth (scriptRun host prepared.desk.config options name source) words
    options.verbosity = ran at *
  cases hreport : failureReport prepared.desk.files prepared.desk.config.precision ⟨name, source⟩
      failure with
  | error own =>
    rw [prepare_files hprepare] at hreport
    exact absurd (failureReport_error_iff.mp hreport) (hfound own)
  | ok report =>
    obtain ⟨rest, rfl⟩ := failureReport_header hreport
    have hconclude : conclude prepared.desk options.stats ⟨name, source⟩ ran
        = ⟨.exit 1, ran.output.append
            ⟨"", banner (header failure.cause.category) ++ rest⟩, none⟩ := by
      simp only [conclude, hfailure, errorReport, hreport]
    rw [hconclude]
    refine ⟨rfl, rfl, dress prepared.plain rest, ?_⟩
    simp only [dressed_eq, Output.append, String.append_empty, String.empty_append,
      dress_lines hlines, dress_banner, String.append_assoc]

/-- The failure of a script, or of the words behind it on the command line, is reported unless it
    is lost, and then the command ends without a report.  Only failures in the words can be lost,
    none of the script. -/
theorem script_failure_reported (host : Host) (arguments : List String) {options : Options}
    {path name source : String} {words : List String} {prepared : Prepared} {failure : Failure}
    (hinvocation :
      Invocation.ofArguments host.terminal arguments = ⟨options, .script path words⟩)
    (hoption : optionTrouble host options = none) (hprepare : host.prepare options = .ok prepared)
    (hscript : Script host path name source)
    (hfailure : (runBoth (scriptRun host prepared.desk.config options name source) words
      options.verbosity).result = .error (.failure failure)) :
    ((∀ trouble, ¬failure.Lost host.files ⟨name, source⟩ trouble) →
      (run host arguments).Reports prepared
        (runBoth (scriptRun host prepared.desk.config options name source) words options.verbosity)
        failure)
    ∧ ∀ trouble, failure.Lost host.files ⟨name, source⟩ trouble →
      (run host arguments).ending = .crash trouble.label
        ∧ failure.text = some Session.argumentsName
        ∧ (scriptRun host prepared.desk.config options name source).result
          ≠ .error (.failure failure) := by
  refine ⟨run_script_reports hinvocation hoption hprepare hscript hfailure,
    fun trouble hlost => ⟨run_script_lost hinvocation hoption hprepare hscript hfailure hlost,
      ?_, fun hfirst => not_lost (scriptRun_standsIn hfirst) hlost⟩⟩
  obtain ⟨text, htext, -, hother, -⟩ := hlost
  obtain rfl | hwords := List.mem_cons.mp (runBoth_standsIn hfailure text htext)
  · exact absurd rfl hother
  · rw [htext, List.mem_singleton.mp hwords]

/-! ## A bracket in a script and behind it -/

/-- A host with a script that is no text, and one that is. -/
def bracketHost : Host :=
  { environment := ⟨[("HOME", "/home")]⟩
    files := ⟨[("bracket.comp", .text "]"), ("symbol.comp", .text "'a")]⟩
    terminal := false
    input := ""
    seed := 0
    note := fun _ => ""
    corrupt := "" }

/-- What is prepared for a program without settings. -/
def bracketPrepared : Prepared := ⟨⟨bracketHost.files, .default, 0, bracketHost.note⟩, "", false⟩

/-- The failure of a text that is a closing bracket. -/
def bracketFailure (name : String) : Failure :=
  .ofSource ⟨.unmatched "]" "[", "]", some name, some 1, some 1⟩

/-- Without a file for them the settings are the default ones. -/
theorem prepare_default (hpath : configPath host options = .ok path)
    (hfile : host.files.isFile path = .ok false) :
    host.prepare options = .ok
      ⟨⟨host.files, .default, options.verbosity, host.note⟩, "",
        options.plain || Config.default.monochrome⟩ := by
  delta Host.prepare loadSettings
  simp only [hpath, hfile]
  rfl

theorem bracketHost_prepare : bracketHost.prepare .none = .ok bracketPrepared := by
  have hpath : configPath bracketHost .none = .ok "/home/comp.toml" := by decide +kernel
  exact prepare_default hpath (by decide +kernel)

theorem run_bracket (session : Session) (stack : Stack) (name : String) (verbosity : Nat) :
    (session.run "]" stack (some name) verbosity).result
      = .error (.failure (bracketFailure name)) := by
  have hwords : scan "]" = ⟨[⟨.blockClose, "]", 1, 1⟩], none⟩ := by decide +kernel
  have hparse : parse "]" (some name)
      = .error ⟨.unmatched "]" "[", "]", some name, some 1, some 1⟩ := by
    simp only [parse, hwords]
    rfl
  rw [session.run_of_parse_error hparse]
  rfl

/-- A bracket in the script is reported, and the words behind it are not run. -/
theorem script_failure_reported_bracket :
    (run bracketHost ["-f", "bracket.comp", "'a"]).Reports bracketPrepared
      (runBoth (scriptRun bracketHost .default .none "bracket.comp" "]") ["'a"] 0)
      (bracketFailure "bracket.comp") := by
  have hfirst : (scriptRun bracketHost .default .none "bracket.comp" "]").result
      = .error (.failure (bracketFailure "bracket.comp")) := run_bracket ..
  have hfailure :
      (runBoth (scriptRun bracketHost .default .none "bracket.comp" "]") ["'a"] 0).result
      = .error (.failure (bracketFailure "bracket.comp")) := by
    simp only [runBoth, hfirst, Ran.of]
  have hscript : Script bracketHost "bracket.comp" "bracket.comp" "]" :=
    .file (by decide) (by decide +kernel)
  have hreported := script_failure_reported bracketHost ["-f", "bracket.comp", "'a"]
    (by decide +kernel) (by decide +kernel) bracketHost_prepare hscript hfailure
  exact hreported.1 fun trouble hlost => (hreported.2 trouble hlost).2.2 hfirst

/-- The same bracket in the words behind a script is not reported, since no file has the name of
    the words. -/
theorem words_failure_unreported :
    (runBoth (scriptRun bracketHost .default .none "symbol.comp" "'a") ["]"] 0).result
        = .error (.failure (bracketFailure Session.argumentsName))
      ∧ (run bracketHost ["-f", "symbol.comp", "]"]).ending = .crash "FileNotFoundError" := by
  have hwords : scan "'a" = ⟨[⟨.symbol, "'a", 1, 1⟩], none⟩ := by decide +kernel
  have hparse : parse "'a" (some "symbol.comp") = .ok [.term [⟨.symbol, "'a", 1, 1⟩]] := by
    simp only [parse, hwords]
    rfl
  have hfirst : (scriptRun bracketHost .default .none "symbol.comp" "'a").result
      = .ok [.text "a"] := by
    rw [scriptRun, Session.result_of_terms _ hparse rfl]
    decide +kernel
  have hfailure : (runBoth (scriptRun bracketHost .default .none "symbol.comp" "'a") ["]"] 0).result
      = .error (.failure (bracketFailure Session.argumentsName)) := by
    simp only [runBoth, hfirst, Ran.of, Session.runWords]
    exact run_bracket ..
  have hlost : (bracketFailure Session.argumentsName).Lost bracketHost.files
      ⟨"symbol.comp", "'a"⟩ .missing := by
    refine ⟨Session.argumentsName, rfl, by decide, by decide, Or.inr ⟨Or.inl ⟨_, rfl⟩, ?_, ?_⟩⟩
    · exact ⟨1, rfl, by decide⟩
    · decide +kernel
  have hscript : Script bracketHost "symbol.comp" "symbol.comp" "'a" :=
    .file (by decide) (by decide +kernel)
  exact ⟨hfailure, run_script_lost (by decide +kernel) (by decide +kernel) bracketHost_prepare
    hscript hfailure hlost⟩

end Shell
end StackCalc
