/-
  BuilderSynthesis.Pass.Error — what ends a pass.

  Trouble with one directive or one file of a source is a diagnostic; these are failures of the
  pass as a whole, or of the writing of one builder.
-/

namespace BuilderSynthesis

inductive PassError where
  | missingOutputDirectory
  | outputDirectory (path : String)
  | staleBuilders (path : String)
  | sourceRoot (path : String)
  | dependency (name : String)
  | render (unit reason : String)
  | writeBuilder (path : String)
  deriving DecidableEq, Repr

namespace PassError

def message : PassError → String
  | missingOutputDirectory => "Missing output directory: set OUT_DIR or configure one with `Config::out_dir`"
  | outputDirectory path => "Cannot create output directory " ++ path
  | staleBuilders path => "Cannot remove stale builders from " ++ path
  | sourceRoot path => "Cannot read source root " ++ path
  | dependency name => "Cannot locate sources of dependency `" ++ name ++ "`"
  | render unit reason => "Cannot render builder `" ++ unit ++ "`: " ++ reason
  | writeBuilder path => "Cannot write builder file " ++ path

end PassError

end BuilderSynthesis
