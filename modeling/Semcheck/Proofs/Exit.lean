/-
  The exit code of a command.

  A command looks at the report as the configuration leaves it.  Every diagnostic
  is an error, so a report that is cut short still shows whether there are errors,
  unless nothing is left of it: with a limit of zero the exit code is always 0
  (`zero_limit_succeeds`).  That is the only exception (`exit_code_eq_zero_iff`).
-/
import Semcheck.Cli.Command
import Semcheck.Proofs.Lower.Severity
import Semcheck.Proofs.Soundness

namespace Semcheck

theorem compile_lowered (config : Config) (files : List SourceFile) :
    ∃ program, lowerFiles config.strict files = .ok program ∧ program.report.Severe ∧
      ∃ c, compile config files = .ok c ∧ c.report = program.report.truncate config.maxErrors := by
  obtain ⟨program, c, hlower, hcompile, -, hreport⟩ := compile_finished config files
  exact ⟨program, hlower, lowerFiles_severe hlower, c, hcompile, hreport⟩

theorem Workspace.compile_eq {files : Workspace} {config : Config} {path : String}
    {trees : List SourceFile} {c : Compilation} (ht : files.trees path = .ok trees)
    (hc : Semcheck.compile config trees = .ok c) : files.compile config path = .ok c := by
  simp only [Workspace.compile, ht, hc, bind, Except.bind]
  rfl

namespace Compilation

theorem exitCode_check (c : Compilation) (colors : Bool) (path : String) :
    (c.check colors path).exitCode = 0 ↔ c.hasErrors = false := by
  rw [check]
  cases c.hasErrors <;> simp [Outcome.success, Outcome.failure]

theorem exitCode_ir (c : Compilation) (colors : Bool) (path : String) :
    (c.ir colors path).exitCode = 0 ↔ c.hasErrors = false := by
  rw [ir]
  cases c.hasErrors <;> simp [Outcome.success, Outcome.failure]

end Compilation

/-- Both commands fail exactly if the compilation has errors. -/
theorem Request.exitCode_run {r : Request} {files : Workspace} {config : Config} {c : Compilation}
    (hconfig : files.config r.config r.input = .ok config)
    (hcompile : files.compile config r.input = .ok c) (colors : Bool) :
    (r.run colors files).exitCode = 0 ↔ c.hasErrors = false := by
  rw [run, hconfig]
  dsimp only
  rw [hcompile]
  cases r.command with
  | check => exact c.exitCode_check colors r.input
  | ir => exact c.exitCode_ir colors r.input

/-- **When a command succeeds.**  Whenever the configuration and the syntax trees can
    be read, the exit code is 0 exactly if lowering reports no error, or the
    configuration keeps no diagnostics at all. -/
theorem exit_code_eq_zero_iff {r : Request} {files : Workspace} {config : Config}
    {trees : List SourceFile} (hconfig : files.config r.config r.input = .ok config)
    (htrees : files.trees r.input = .ok trees) (colors : Bool) :
    ∃ program, lowerFiles config.strict trees = .ok program ∧
      ((r.run colors files).exitCode = 0 ↔
        program.report.hasErrors = false ∨ config.maxErrors = some 0) := by
  obtain ⟨program, hlower, hsevere, c, hcompile, hreport⟩ := compile_lowered config trees
  refine ⟨program, hlower, ?_⟩
  have htruncated := hsevere.hasErrors_truncate config.maxErrors
  calc (r.run colors files).exitCode = 0
      ↔ c.hasErrors = false :=
        Request.exitCode_run hconfig (Workspace.compile_eq htrees hcompile) colors
    _ ↔ ¬ (program.report.hasErrors = true ∧ config.maxErrors ≠ some 0) := by
        rw [← htruncated, ← hreport, Bool.not_eq_true]
        rfl
    _ ↔ program.report.hasErrors = false ∨ config.maxErrors = some 0 := by
        rw [not_and_or, Bool.not_eq_true, not_not]

namespace Sample

/-- The program `struct int`, which declares a builtin type again. -/
def redeclaredText : String :=
  "[[0, [\x7b\"struct\": [[\"int\", [0, [1, 2]]], [], [0, [0, 3]]]\x7d], [0, [0, 3]]]]"

/-- The program with a limit for the number of diagnostics. -/
def redeclared (limit : String) : Workspace
  | "main.json" => .text redeclaredText
  | "cinder.toml" => .text ("max_errors = " ++ limit ++ "\n")
  | _ => .missing

theorem trees_redeclared (limit : String) {trees : List SourceFile}
    (h : trees ∈ readFiles redeclaredText) : (redeclared limit).trees "main.json" = .ok trees := by
  have hfile : redeclared limit "main.json" = .text redeclaredText := rfl
  rw [Workspace.trees, hfile]
  dsimp only
  rw [Option.mem_def.1 h]

theorem redeclared_lowered : ∃ trees ∈ readFiles redeclaredText,
    ∃ program ∈ (lowerFiles true trees).toOption, program.report.hasErrors = true := by
  decide +kernel

end Sample

theorem redeclared_fails : ∃ config trees program,
    (Sample.redeclared "1").config none "main.json" = .ok config ∧
      (Sample.redeclared "1").trees "main.json" = .ok trees ∧
      lowerFiles config.strict trees = .ok program ∧ program.report.hasErrors = true ∧
      ∀ command,
        (Request.run ⟨command, "main.json", none⟩ false (Sample.redeclared "1")).exitCode ≠ 0 := by
  have hconfig : (Sample.redeclared "1").config none "main.json" = .ok ⟨true, true, some 1⟩ := by
    decide +kernel
  obtain ⟨trees, htrees, program, hprogram, herrors⟩ := Sample.redeclared_lowered
  have htrees := Sample.trees_redeclared "1" htrees
  have hprogram := ok_of_toOption hprogram
  refine ⟨_, trees, program, hconfig, htrees, hprogram, herrors, fun command hexit => ?_⟩
  obtain ⟨program', hprogram', hiff⟩ := exit_code_eq_zero_iff
    (r := ⟨command, "main.json", none⟩) hconfig htrees false
  rw [hprogram] at hprogram'
  cases hprogram'
  rcases hiff.1 hexit with hnone | hzero
  · rw [herrors] at hnone
    cases hnone
  · cases hzero

/-- With a limit of zero the commands succeed although there are errors. -/
theorem zero_limit_succeeds : ∃ config trees program,
    (Sample.redeclared "0").config none "main.json" = .ok config ∧
      (Sample.redeclared "0").trees "main.json" = .ok trees ∧
      lowerFiles config.strict trees = .ok program ∧ program.report.hasErrors = true ∧
      ∀ command,
        (Request.run ⟨command, "main.json", none⟩ false (Sample.redeclared "0")).exitCode = 0 := by
  have hconfig : (Sample.redeclared "0").config none "main.json" = .ok ⟨true, true, some 0⟩ := by
    decide +kernel
  obtain ⟨trees, htrees, program, hprogram, herrors⟩ := Sample.redeclared_lowered
  refine ⟨_, trees, program, hconfig, Sample.trees_redeclared "0" htrees, ok_of_toOption hprogram,
    herrors, fun command => ?_⟩
  cases command with
  | check => decide +kernel
  | ir => decide +kernel

end Semcheck
