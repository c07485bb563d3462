/-
  StackCalc.Proofs.UnreadableScripts

  Scripts that cannot be read.  The library reports a failure of the file for each of them
  (`runFile_of_error`).  The command reads a script twice, first its text for the reports
  (`scriptSource`) and then the program, and reports the same failure only if the first reading
  goes through: it gives no text for a path that leads to nothing or to a directory, but for a
  file that is no text, or a name that is too long, the command ends there
  (`runProgram_undecodable`).
-/

import StackCalc.Proofs.EncodedTexts
import StackCalc.Proofs.Reports

namespace StackCalc

open Text

/-! ## Paths -/

namespace Files

variable {files : Files} {path : String} {steps here : List String} {trouble : FileTrouble}

/-- What a path leads to is not read, and it is no trouble on the way that it is a directory. -/
theorem follow_error (h : files.follow here steps = .error trouble) :
    trouble = .missing ∨ trouble = .notDirectory ∨ trouble = .nameTooLong := by
  induction steps generalizing here with
  | nil => cases h
  | cons step rest ih =>
    rw [follow] at h
    split at h
    · split at h
      · cases h
        exact .inr (.inr rfl)
      · exact ih h
    · cases h
      exact .inr (.inl rfl)
    · cases h
      exact .inl rfl

theorem resolve_error (h : files.resolve path = .error trouble) :
    trouble = .missing ∨ trouble = .notDirectory ∨ trouble = .nameTooLong
      ∨ trouble = .nullInPath := by
  rw [resolve] at h
  split_ifs at h
  · cases h
    exact .inr (.inr (.inr rfl))
  · cases h
    exact .inr (.inr (.inl rfl))
  · cases h
    exact .inl rfl
  · obtain rfl | rfl | rfl := follow_error h
    · exact .inl rfl
    · exact .inr (.inl rfl)
    · exact .inr (.inr (.inl rfl))

theorem look_error (h : files.look path = .error trouble) :
    trouble = .missing ∨ trouble = .notDirectory ∨ trouble = .nameTooLong
      ∨ trouble = .nullInPath := by
  rw [look] at h
  split at h
  · rename_i own hresolve
    cases h
    exact resolve_error hresolve
  · split at h
    · cases h
    · cases h
      exact .inl rfl

/-- A file that is there cannot be read for one reason only. -/
theorem undecodable_of_look {bytes : List UInt8} (hlook : files.look path = .ok (.ofBytes bytes))
    (hread : files.read path = .error trouble) : ∃ fault, trouble = .undecodable fault := by
  rw [read, hlook, FileEntry.ofBytes] at hread
  cases hdecode : Utf8.decode bytes with
  | ok content =>
    rw [hdecode] at hread
    cases hread
  | error fault =>
    rw [hdecode] at hread
    cases hread
    exact ⟨fault, rfl⟩

end Files

namespace Shell

variable {host : Host} {options : Options} {prepared : Prepared} {path source : String}
  {words arguments : List String} {trouble : FileTrouble} {files : Files} {precision : Option Nat}

/-- The text of a script for its report is looked at before the script is run.  A directory and a
    file that is not there have none; but a name that is too long and a file that is no text end
    the command here. -/
theorem scriptSource_of_error (h : files.read (FilePath.normal path) = .error trouble) :
    scriptSource files path =
      match trouble with
      | .undecodable fault => .error (.undecodable fault)
      | .nameTooLong => .error .nameTooLong
      | _ => .ok "" := by
  have hread := h
  rw [Files.read] at h
  delta scriptSource
  rw [Files.isFile]
  split at h
  · cases h
  · rename_i fault hlook
    cases h
    simp only [hlook, hread]
  · rename_i hlook
    cases h
    simp only [hlook]
  · rename_i own hlook
    cases h
    obtain rfl | rfl | rfl | rfl := Files.look_error hlook
    · simp only [hlook]
    · simp only [hlook]
    · simp only [hlook]
    · simp only [hlook]

/-! ## Reports -/

/-- The report of a file that a program cannot use. -/
def fileReport (path : String) : String :=
  layOut (header .file)
    ("Term `" ++ Colour.paint "1;97" path ++ "` from `" ++ Colour.paint "97" path ++ "` failed: "
      ++ (Cause.file path).message)
    Category.file.label "\n"

theorem failureReport_file : failureReport files precision ⟨path, source⟩ (.named path (.file path))
    = .ok (fileReport path) := by
  simp only [failureReport, failureContext, Failure.named, Option.bind_none, contextIn, if_true,
    typedContext, sourceContext]
  rfl

/-! ## The command -/

/-- A run of a script that ends before anything of it is run: besides the remarks on the settings
    nothing is written but a report, and no stack. -/
def Prepared.ended (prepared : Prepared) (host : Host) (ending : Ending) (report : String) :
    Result where
  ending := ending
  written := ⟨"", prepared.remarks ++ dress prepared.plain report⟩
  steps := none
  plain := prepared.plain
  files := host.files

/-- A script that cannot be read makes its run fail, whatever the session is. -/
theorem runFile_of_error (session : Session) (stack : Stack) (verbosity : Nat)
    (h : files.read (FilePath.normal path) = .error trouble) :
    session.runFile files path stack verbosity
      = session.unchanged (.error (.ofFile path trouble)) := by
  delta Session.runFile
  simp only [h]

theorem runBoth_unchanged (session : Session) (error : Error) (verbosity : Nat) :
    runBoth (session.unchanged (.error error)) words verbosity = ⟨.error error, .none, 0⟩ := by
  rfl

/-- The text of the script is looked at for the report before the script is run. -/
theorem runProgram_unread (hnamed : path ≠ "-") (desk : Desk)
    (hread : host.files.read (FilePath.normal path) = .error trouble) :
    runProgram host desk options (.script path words) =
      match scriptSource host.files path with
      | .error own => ⟨.crash own.label, .none, none⟩
      | .ok source =>
        conclude desk options.stats ⟨path, source⟩ ⟨.error (.ofFile path trouble), .none, 0⟩ := by
  unfold runProgram
  cases hsource : scriptSource host.files path with
  | error own => simp only [hsource]
  | ok source => simp only [hsource, runFile_of_error _ _ _ hread, runBoth_unchanged]

theorem runProgram_absent (hnamed : path ≠ "-") (desk : Desk)
    (hread : host.files.read (FilePath.normal path) = .error trouble)
    (habsent : trouble = .missing ∨ trouble = .notDirectory ∨ trouble = .isDirectory) :
    runProgram host desk options (.script path words)
      = ⟨.exit 1, ⟨"", fileReport path⟩, none⟩ := by
  have hsource := scriptSource_of_error hread
  rw [runProgram_unread hnamed desk hread]
  obtain rfl | rfl | rfl := habsent
  all_goals
    simp only [hsource, conclude, Error.ofFile, errorReport, failureReport_file]
    rfl

theorem runProgram_undecodable (hnamed : path ≠ "-") (desk : Desk)
    (hread : host.files.read (FilePath.normal path) = .error trouble)
    (hbroken : (∃ fault, trouble = .undecodable fault) ∨ trouble = .nameTooLong) :
    runProgram host desk options (.script path words) = ⟨.crash trouble.label, .none, none⟩ := by
  have hsource := scriptSource_of_error hread
  rw [runProgram_unread hnamed desk hread]
  obtain ⟨fault, rfl⟩ | rfl := hbroken
  all_goals simp only [hsource]

theorem runProgram_nullInPath (hnamed : path ≠ "-") (desk : Desk)
    (hread : host.files.read (FilePath.normal path) = .error .nullInPath) :
    runProgram host desk options (.script path words)
      = ⟨.exit 1, ⟨"", faultReport ⟨path, ""⟩ (.file path .nullInPath)
          (desk.note (.file path .nullInPath))⟩, none⟩ := by
  have hsource := scriptSource_of_error hread
  rw [runProgram_unread hnamed desk hread]
  simp only [hsource, conclude, Error.ofFile, errorReport]
  rfl

/-- What the command comes to if nothing of its script is run. -/
theorem run_ended {ending : Ending} {report : String}
    (hinvocation :
      Invocation.ofArguments host.terminal arguments = ⟨options, .script path words⟩)
    (hoption : optionTrouble host options = none) (hprepare : host.prepare options = .ok prepared)
    (hprogram : runProgram host prepared.desk options (.script path words)
      = ⟨ending, ⟨"", report⟩, none⟩) :
    run host arguments = prepared.ended host ending report := by
  have hnothing : dress prepared.plain "" = "" := by
    cases prepared.plain with
    | false => rfl
    | true => exact Colour.strip_empty
  simp only [run, hinvocation, hoption, perform, runWithSettings, hprepare, hprogram]
  rw [dressed_eq, hnothing]
  rfl

/-- A script that cannot be read makes the library report a failure of its file, whatever the
    trouble is but a null in the path.  The command reports the same if the path leads to nothing
    or to a directory, with exit status 1 and without a stack.  But it reads the text of the script
    for its reports first, and if the path leads to a file that is no text, or has a name that is
    too long, it ends there without a report.  The files that are no text are those whose bytes do
    not encode one. -/
theorem unreadable_script_reported (host : Host) (arguments : List String) {options : Options}
    {path : String} {words : List String} {prepared : Prepared} {trouble : FileTrouble}
    (hinvocation :
      Invocation.ofArguments host.terminal arguments = ⟨options, .script path words⟩)
    (hnamed : path ≠ "-") (hoption : optionTrouble host options = none)
    (hprepare : host.prepare options = .ok prepared)
    (hread : host.files.read (FilePath.normal path) = .error trouble) :
    (∀ (session : Session) (stack : Stack) (verbosity : Nat),
        (session.runFile host.files path stack verbosity).result
          = .error (.ofFile path trouble))
      ∧ ((trouble = .missing ∨ trouble = .notDirectory ∨ trouble = .isDirectory) →
        run host arguments = prepared.ended host (.exit 1) (fileReport path))
      ∧ ((∃ fault, trouble = .undecodable fault) ∨ trouble = .nameTooLong →
        run host arguments = prepared.ended host (.crash trouble.label) "")
      ∧ (trouble = .nullInPath →
        run host arguments = prepared.ended host (.exit 1)
          (faultReport ⟨path, ""⟩ (.file path .nullInPath)
            (prepared.desk.note (.file path .nullInPath))))
      ∧ (∀ bytes, host.files.look (FilePath.normal path) = .ok (.ofBytes bytes) →
        (∀ text : String, bytes ≠ Utf8.encoded text.toList)
          ∧ ∃ fault, trouble = .undecodable fault) := by
  refine ⟨fun session stack verbosity => ?_, fun habsent => ?_, fun hbroken => ?_, ?_, ?_⟩
  · rw [runFile_of_error session stack verbosity hread]
    rfl
  · exact run_ended hinvocation hoption hprepare (runProgram_absent hnamed _ hread habsent)
  · exact run_ended hinvocation hoption hprepare (runProgram_undecodable hnamed _ hread hbroken)
  · rintro rfl
    exact run_ended hinvocation hoption hprepare (runProgram_nullInPath hnamed _ hread)
  · intro bytes hlook
    obtain ⟨fault, rfl⟩ := Files.undecodable_of_look hlook hread
    exact ⟨(Files.read_ofBytes hlook).mp ⟨fault, hread⟩, fault, rfl⟩

/-- A path on which a text stands in the place of a directory. -/
theorem unreadable_script_reported_within :
    bracketHost.files.read (FilePath.normal "symbol.comp/tip.comp") = .error .notDirectory
      ∧ (∀ (session : Session) (stack : Stack) (verbosity : Nat),
        (session.runFile bracketHost.files "symbol.comp/tip.comp" stack verbosity).result
          = .error (.ofFile "symbol.comp/tip.comp" .notDirectory))
      ∧ run bracketHost ["-f", "symbol.comp/tip.comp", "'a"]
        = bracketPrepared.ended bracketHost (.exit 1) (fileReport "symbol.comp/tip.comp") := by
  have hinvocation : Invocation.ofArguments bracketHost.terminal
      ["-f", "symbol.comp/tip.comp", "'a"] = ⟨.none, .script "symbol.comp/tip.comp" ["'a"]⟩ := by
    decide +kernel
  have hread : bracketHost.files.read (FilePath.normal "symbol.comp/tip.comp")
      = .error .notDirectory := by decide +kernel
  have hreported := unreadable_script_reported bracketHost ["-f", "symbol.comp/tip.comp", "'a"]
    hinvocation (by decide) (by decide +kernel) bracketHost_prepare hread
  exact ⟨hread, hreported.1, hreported.2.1 (.inr (.inl rfl))⟩

/-- A host with a script of a single byte that no text begins with. -/
def brokenHost : Host :=
  { bracketHost with files := ⟨[("broken.comp", .ofBytes [0xFF])]⟩ }

/-- What is prepared for a program without settings. -/
def brokenPrepared : Prepared := ⟨⟨brokenHost.files, .default, 0, brokenHost.note⟩, "", false⟩

theorem brokenHost_prepare : brokenHost.prepare .none = .ok brokenPrepared := by
  have hpath : configPath brokenHost .none = .ok "/home/comp.toml" := by decide +kernel
  exact prepare_default hpath (by decide +kernel)

/-- Not every script that cannot be read is reported: one whose bytes encode no text is not. -/
theorem unreadable_script_unreported :
    ¬∀ (host : Host) (arguments : List String) (options : Options) (path : String)
      (words : List String) (prepared : Prepared),
      Invocation.ofArguments host.terminal arguments = ⟨options, .script path words⟩ →
      path ≠ "-" → optionTrouble host options = none → host.prepare options = .ok prepared →
      (host.files.read (FilePath.normal path) = .error .missing
        ∨ host.files.read (FilePath.normal path) = .error .isDirectory
        ∨ ∃ bytes, host.files.look (FilePath.normal path) = .ok (.ofBytes bytes)
          ∧ ∀ text : String, bytes ≠ Utf8.encoded text.toList) →
      run host arguments = prepared.ended host (.exit 1) (fileReport path) := by
  intro h
  have hinvocation : Invocation.ofArguments brokenHost.terminal ["-f", "broken.comp"]
      = ⟨.none, .script "broken.comp" []⟩ := by decide +kernel
  have hoption : optionTrouble brokenHost .none = none := by decide +kernel
  have hlook : brokenHost.files.look (FilePath.normal "broken.comp") = .ok (.ofBytes [0xFF]) := by
    decide +kernel
  have hentry : FileEntry.ofBytes [0xFF] = .undecodable ⟨0xFF, 0, 1, .start⟩ := by decide +kernel
  have hbytes : ∀ text : String, [0xFF] ≠ Utf8.encoded text.toList :=
    FileEntry.ofBytes_undecodable_iff.mp ⟨_, hentry⟩
  have hreported := h brokenHost _ _ _ _ _ hinvocation (by decide) hoption brokenHost_prepare
    (.inr (.inr ⟨_, hlook, hbytes⟩))
  obtain ⟨fault, hread⟩ := (Files.read_ofBytes hlook).mpr hbytes
  have hcrashed := run_ended hinvocation hoption brokenHost_prepare
    (runProgram_undecodable (by decide) _ hread (.inl ⟨fault, rfl⟩))
  have hending := congrArg Result.ending (hreported.symm.trans hcrashed)
  cases hending

end Shell
end StackCalc
