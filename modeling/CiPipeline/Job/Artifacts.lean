import CiPipeline.Job.When

/-!
# Artifacts

The files that a job leaves behind, and the reports among them. Each kind of report has one slot,
which holds the report declared last.
-/

namespace CiPipeline

/-- The kinds of report that are one file. -/
inductive ReportKind where
  | accessibility
  | annotations
  | apiFuzzing
  | browserPerformance
  | clusterImageScanning
  | codeQuality
  | containerScanning
  | coverageFuzzing
  | dast
  | dependencyScanning
  | dotenv
  | junit
  | licenseScanning
  | loadPerformance
  | metrics
  | requirements
  | sast
  | secretDetection
  | terraform
  deriving DecidableEq, Repr

def ReportKind.slot : ReportKind → String
  | accessibility => "accessibility"
  | annotations => "annotations"
  | apiFuzzing => "api_fuzzing"
  | browserPerformance => "browser_performance"
  | clusterImageScanning => "cluster_image_scanning"
  | codeQuality => "codequality"
  | containerScanning => "container_scanning"
  | coverageFuzzing => "coverage_fuzzing"
  | dast => "dast"
  | dependencyScanning => "dependency_scanning"
  | dotenv => "dotenv"
  | junit => "junit"
  | licenseScanning => "license_scanning"
  | loadPerformance => "load_performance"
  | metrics => "metrics"
  | requirements => "requirements"
  | sast => "sast"
  | secretDetection => "secret_detection"
  | terraform => "terraform"

inductive Report where
  | file (kind : ReportKind) (path : String)
  | coverage (format path : String)
  | cyclonedx (paths : List String)
  deriving DecidableEq, Repr

def Report.slot : Report → String
  | file kind _ => kind.slot
  | coverage .. => "coverage_report"
  | cyclonedx _ => "cyclonedx"

instance : ToNode Report := ⟨fun
  | .file _ path => .str path
  | .coverage format path =>
    toNode ((Mapping.empty.add "coverage_format" format).add "path" path)
  | .cyclonedx paths => toNode paths⟩

structure Artifacts where
  paths : List String := []
  excluded : List String := []
  expireIn : Option String := none
  exposeAs : Option String := none
  name : Option String := none
  reports : Mapping := .empty
  when : When := .always
  deriving BEq, Repr, Inhabited

namespace Artifacts

inductive Setting where
  | path (path : String)
  | excluded (path : String)
  | expireIn (duration : String)
  | exposeAs (label : String)
  | name (name : String)
  | when (when : When)
  | report (report : Report)
  deriving DecidableEq, Repr

def apply (artifacts : Artifacts) : Setting → Artifacts
  | .path path => { artifacts with paths := artifacts.paths ++ [path] }
  | .excluded path => { artifacts with excluded := artifacts.excluded ++ [path] }
  | .expireIn duration => { artifacts with expireIn := some duration }
  | .exposeAs label => { artifacts with exposeAs := some label }
  | .name name => { artifacts with name := some name }
  | .when w => { artifacts with when := w }
  | .report report => { artifacts with reports := artifacts.reports.add report.slot report }

def configure (artifacts : Artifacts) (settings : List Setting) : Artifacts :=
  settings.foldl apply artifacts

/-- Nothing was declared, or only what holds anyway. -/
def isEmpty (artifacts : Artifacts) : Bool := artifacts == {}

def toMapping (artifacts : Artifacts) : Mapping :=
  Mapping.empty
    |>.addNonEmpty "paths" artifacts.paths
    |>.addNonEmpty "exclude" artifacts.excluded
    |>.addOpt "expire_in" artifacts.expireIn
    |>.addOpt "expose_as" artifacts.exposeAs
    |>.addOpt "name" artifacts.name
    |>.addMapNonEmpty "reports" artifacts.reports
    |>.add "when" artifacts.when

end Artifacts

instance : ToNode Artifacts := ⟨fun artifacts => toNode artifacts.toMapping⟩

end CiPipeline
