import CiPipeline.Proofs.Job.Fields

/-!
# Artifacts from their settings

What any settings leave in the artifacts of a job can be read off them field by field
(`configure_eq`). The export has one field for each and tells different artifacts apart
(`toNode_injective`), so that they are empty exactly when they are exported like the default, and
each method that declares a report keeps a slot of its own (`exports_of_settings`).
-/

namespace CiPipeline
open Mapping

/-! ### Reports -/

/-- The ways to declare a report. -/
inductive ReportMethod where
  | file (kind : ReportKind)
  | coverage
  | cyclonedx
  deriving DecidableEq

namespace ReportMethod

def slot : ReportMethod → String
  | file kind => kind.slot
  | coverage => "coverage_report"
  | cyclonedx => "cyclonedx"

def all : List ReportMethod :=
  coverage :: cyclonedx :: List.map file
    [.accessibility, .annotations, .apiFuzzing, .browserPerformance, .clusterImageScanning, .codeQuality,
      .containerScanning, .coverageFuzzing, .dast, .dependencyScanning, .dotenv, .junit, .licenseScanning,
      .loadPerformance, .metrics, .requirements, .sast, .secretDetection, .terraform]

theorem mem_all (method : ReportMethod) : method ∈ all := by
  cases method with
  | file kind => cases kind <;> decide
  | coverage => decide
  | cyclonedx => decide

theorem distinct_slots : (all.map slot).Nodup := by decide

theorem slot_injective : Function.Injective slot := fun method other same =>
  List.inj_on_of_nodup_map distinct_slots (mem_all method) (mem_all other) same

end ReportMethod

namespace Report

def method : Report → ReportMethod
  | file kind _ => .file kind
  | coverage .. => .coverage
  | cyclonedx _ => .cyclonedx

theorem slot_method (report : Report) : report.method.slot = report.slot := by
  cases report <;> rfl

/-- What stands in the slot of a report. -/
def value : Report → Node
  | file _ path => .str path
  | coverage format path => .map [(.str "coverage_format", .str format), (.str "path", .str path)]
  | cyclonedx paths => .list (paths.map .str)

theorem toNode_eq_value (report : Report) : toNode report = report.value := by
  cases report <;> rfl

end Report

namespace Artifacts

/-! ### Settings -/

namespace Setting

def path? : Setting → Option String
  | .path file => some file
  | _ => none

def excluded? : Setting → Option String
  | .excluded file => some file
  | _ => none

def expireIn? : Setting → Option String
  | .expireIn duration => some duration
  | _ => none

def exposeAs? : Setting → Option String
  | .exposeAs label => some label
  | _ => none

def name? : Setting → Option String
  | .name text => some text
  | _ => none

def report? : Setting → Option Report
  | .report declared => some declared
  | _ => none

def when? : Setting → Option When
  | .when w => some w
  | _ => none

end Setting

/-- The reports in the order in which they were declared, replaced ones included. -/
def declaredReports (settings : List Setting) : List Report := settings.filterMap Setting.report?

def lastWhen? (settings : List Setting) : Option When := (settings.filterMap Setting.when?).getLast?

/-- Paths add up, and of the other settings of a field the last one holds. -/
theorem configure_eq (settings : List Setting) : configure {} settings = {
    paths := settings.filterMap Setting.path?
    excluded := settings.filterMap Setting.excluded?
    expireIn := (settings.filterMap Setting.expireIn?).getLast?
    exposeAs := (settings.filterMap Setting.exposeAs?).getLast?
    name := (settings.filterMap Setting.name?).getLast?
    reports := ofPairs ((declaredReports settings).map fun report => (report.slot, report))
    when := (lastWhen? settings).getD .always } := by
  induction settings using List.reverseRecOn with
  | nil => rfl
  | append_singleton settings setting ih =>
    rw [configure, List.foldl_concat, ← configure, ih]
    cases setting <;>
      simp [apply, declaredReports, lastWhen?, List.filterMap_cons, ofPairs, Setting.path?, Setting.excluded?,
        Setting.expireIn?, Setting.exposeAs?, Setting.name?, Setting.report?, Setting.when?]

/-! ### Fields -/

def fields (artifacts : Artifacts) : List (String × Option Node) :=
  [("paths", listed artifacts.paths), ("exclude", listed artifacts.excluded),
    ("expire_in", artifacts.expireIn.map toNode), ("expose_as", artifacts.exposeAs.map toNode),
    ("name", artifacts.name.map toNode), ("reports", nested artifacts.reports),
    ("when", some (toNode artifacts.when))]

def fieldNames : List String :=
  ["paths", "exclude", "expire_in", "expose_as", "name", "reports", "when"]

theorem distinct_fields (artifacts : Artifacts) : (artifacts.fields.map (·.1)).Nodup :=
  (by decide : fieldNames.Nodup)

theorem entries_toMapping (artifacts : Artifacts) :
    artifacts.toMapping.entries = pairs (present artifacts.fields) := by
  have written : artifacts.toMapping = ofFields artifacts.fields := by
    simp only [ofFields, fields, List.foldl_cons, List.foldl_nil, addOpt_map, addOpt_listed, addOpt_nested,
      addOpt_some]
    rfl
  rw [written, entries_ofFields (distinct_present artifacts.distinct_fields)]

theorem toNode_eq_map (artifacts : Artifacts) :
    toNode artifacts = .map (pairs (present artifacts.fields)) :=
  congrArg Node.map artifacts.entries_toMapping

theorem get?_toNode {artifacts : Artifacts} {name : String} {value : Option Node}
    (member : (name, value) ∈ artifacts.fields) : (toNode artifacts).get? name = value := by
  rw [toNode_eq_map]
  exact get?_present artifacts.distinct_fields member

theorem toNode_when_injective {w other : When} (same : toNode w = toNode other) : w = other := by
  have text : w.text = other.text := Node.str.inj same
  clear same
  revert text
  cases w <;> cases other <;> decide

/-- Artifacts that differ in anything are exported differently. -/
theorem toNode_injective {artifacts other : Artifacts} (same : toNode artifacts = toNode other) :
    artifacts = other := by
  rw [toNode_eq_map, toNode_eq_map] at same
  have fields : artifacts.fields = other.fields :=
    present_injective rfl artifacts.distinct_fields (pairs_injective (Node.map.inj same))
  simp only [Artifacts.fields, List.cons.injEq, Prod.mk.injEq, true_and, and_true] at fields
  obtain ⟨paths, excluded, expireIn, exposeAs, name, reports, kept⟩ := fields
  obtain ⟨_, _, _, _, _, ⟨_⟩, _⟩ := artifacts
  obtain ⟨_, _, _, _, _, ⟨_⟩, _⟩ := other
  obtain rfl := listed_injective Node.str.inj paths
  obtain rfl := listed_injective Node.str.inj excluded
  obtain rfl := Option.map_injective (fun _ _ => Node.str.inj) expireIn
  obtain rfl := Option.map_injective (fun _ _ => Node.str.inj) exposeAs
  obtain rfl := Option.map_injective (fun _ _ => Node.str.inj) name
  obtain rfl := nested_injective reports
  obtain rfl := toNode_when_injective (Option.some.inj kept)
  rfl

/-! ### Emptiness -/

theorem isEmpty_iff {artifacts : Artifacts} : artifacts.isEmpty = true ↔ artifacts = {} := by
  constructor
  · intro same
    have opened : instBEqArtifacts.beq artifacts {} = true := same
    obtain ⟨_, _, _, _, _, ⟨entries⟩, _⟩ := artifacts
    simp only [instBEqArtifacts.beq, Bool.and_eq_true, beq_iff_eq] at opened
    obtain ⟨rfl, rfl, rfl, rfl, rfl, sameReports, rfl⟩ := opened
    cases entries with
    | nil => rfl
    | cons entry entries => cases sameReports
  · rintro rfl
    rfl

theorem toNode_eq_default_iff {artifacts : Artifacts} :
    toNode artifacts = .map [(.str "when", .str "always")] ↔ artifacts = {} := by
  have default : toNode ({} : Artifacts) = .map [(.str "when", .str "always")] := rfl
  rw [← default]
  exact ⟨toNode_injective, congrArg toNode⟩

theorem entries_reports (reports : List Report) :
    (ofPairs (reports.map fun report => (report.slot, report))).entries =
      (lastOfEach Report.method reports).map fun report => (.str report.method.slot, report.value) := by
  have slots : Report.slot = ReportMethod.slot ∘ Report.method := funext fun report => report.slot_method.symm
  rw [entries_ofPairs_lastOfEach, slots, lastOfEach_comp ReportMethod.slot_injective, pairs, List.map_map]
  exact List.map_congr_left fun report _ => Prod.ext rfl report.toNode_eq_value

theorem entries_reports_eq_nil_iff {reports : List Report} :
    (ofPairs (reports.map fun report => (report.slot, report))).entries = [] ↔ reports = [] := by
  rw [entries_reports, List.map_eq_nil_iff, lastOfEach_eq_nil_iff]

theorem nested_reports (reports : List Report) :
    nested (ofPairs (reports.map fun report => (report.slot, report))) =
      if reports.isEmpty then none
      else some (.map ((lastOfEach Report.method reports).map fun report =>
        (.str report.method.slot, report.value))) := by
  rw [nested_eq_ite entries_reports_eq_nil_iff, entries_reports]

/-- Without a report and without another setting the condition of the upload decides. -/
theorem isEmpty_configure_iff (settings : List Setting) : (configure {} settings).isEmpty = true ↔
    (∀ setting ∈ settings, ∃ w, setting = .when w) ∧ ∀ w ∈ lastWhen? settings, w = .always := by
  rw [isEmpty_iff, configure_eq]
  constructor
  · intro default
    simp only [Artifacts.mk.injEq, List.getLast?_eq_none_iff, List.filterMap_eq_nil_iff] at default
    obtain ⟨paths, excluded, expireIn, exposeAs, name, reports, kept⟩ := default
    have undeclared : ∀ setting ∈ settings, setting.report? = none :=
      List.filterMap_eq_nil_iff.mp (entries_reports_eq_nil_iff.mp (congrArg Mapping.entries reports))
    refine ⟨fun setting member => ?_, fun w last => ?_⟩
    · cases setting with
      | path => cases paths _ member
      | excluded => cases excluded _ member
      | expireIn => cases expireIn _ member
      | exposeAs => cases exposeAs _ member
      | name => cases name _ member
      | report => cases undeclared _ member
      | when w => exact ⟨w, rfl⟩
    · rwa [last] at kept
  · rintro ⟨only, always⟩
    have silent : ∀ {α : Type} (read : Setting → Option α), (∀ w, read (.when w) = none) →
        settings.filterMap read = [] := by
      intro α read unread
      refine List.filterMap_eq_nil_iff.mpr fun setting member => ?_
      obtain ⟨w, rfl⟩ := only setting member
      exact unread w
    have kept : (lastWhen? settings).getD .always = .always := by
      cases last : lastWhen? settings with
      | none => rfl
      | some w => exact always w last
    rw [kept, declaredReports, silent _ fun _ => rfl, silent _ fun _ => rfl, silent _ fun _ => rfl,
      silent _ fun _ => rfl, silent _ fun _ => rfl, silent _ fun _ => rfl]
    rfl

/-! ### The export -/

/-- One report for each method that declared any, the last one, in the slot of the method. -/
def exportedReports (settings : List Setting) : Option Node :=
  if (declaredReports settings).isEmpty then none
  else some (.map ((lastOfEach Report.method (declaredReports settings)).map fun report =>
    (.str report.method.slot, report.value)))

theorem fields_configure (settings : List Setting) : (configure {} settings).fields =
    [("paths", listed (settings.filterMap Setting.path?)),
      ("exclude", listed (settings.filterMap Setting.excluded?)),
      ("expire_in", (settings.filterMap Setting.expireIn?).getLast?.map .str),
      ("expose_as", (settings.filterMap Setting.exposeAs?).getLast?.map .str),
      ("name", (settings.filterMap Setting.name?).getLast?.map .str),
      ("reports", exportedReports settings),
      ("when", some (.str ((lastWhen? settings).getD .always).text))] := by
  rw [configure_eq, fields, nested_reports]
  rfl

theorem keys_toMapping (artifacts : Artifacts) :
    artifacts.toMapping.keys = ((present artifacts.fields).map (·.1)).map .str := by
  rw [keys, entries_toMapping, keys_pairs]

theorem when_mem_present (artifacts : Artifacts) :
    ("when", toNode artifacts.when) ∈ present artifacts.fields := by
  rw [mem_present, fields]
  simp

/-- Artifacts are empty when nothing but the default was set, and then they are exported as the default.
The fields stand in a fixed order: paths are kept as they were given, of other settings the last one
is, and of each method that declares a report the last report, where the method was first used. -/
theorem exports_of_settings (settings : List Setting) :
    let artifacts := configure {} settings
    (artifacts.isEmpty = true ↔
      (∀ setting ∈ settings, ∃ w, setting = .when w) ∧ ∀ w ∈ lastWhen? settings, w = .always) ∧
    (artifacts.isEmpty = true ↔ toNode artifacts = .map [(.str "when", .str "always")]) ∧
    (∃ names : List String, artifacts.toMapping.keys = names.map .str ∧ "when" ∈ names ∧
      names.Sublist ["paths", "exclude", "expire_in", "expose_as", "name", "reports", "when"]) ∧
    (toNode artifacts).get? "paths" = listed (settings.filterMap Setting.path?) ∧
    (toNode artifacts).get? "exclude" = listed (settings.filterMap Setting.excluded?) ∧
    (toNode artifacts).get? "expire_in" = (settings.filterMap Setting.expireIn?).getLast?.map .str ∧
    (toNode artifacts).get? "expose_as" = (settings.filterMap Setting.exposeAs?).getLast?.map .str ∧
    (toNode artifacts).get? "name" = (settings.filterMap Setting.name?).getLast?.map .str ∧
    (toNode artifacts).get? "reports" = exportedReports settings ∧
    (lastOfEach Report.method (declaredReports settings)).map Report.method =
      ((declaredReports settings).map Report.method).eraseDups ∧
    (toNode artifacts).get? "when" = some (.str ((lastWhen? settings).getD .always).text) ∧
    ReportMethod.all.length = 21 ∧ (∀ method, method ∈ ReportMethod.all) ∧
    (ReportMethod.all.map ReportMethod.slot).Nodup := by
  intro artifacts
  have field : ∀ {name value}, (name, value) ∈ artifacts.fields → (toNode artifacts).get? name = value :=
    get?_toNode
  rw [fields_configure] at field
  refine ⟨isEmpty_configure_iff settings, isEmpty_iff.trans toNode_eq_default_iff.symm,
    ⟨_, artifacts.keys_toMapping, List.mem_map_of_mem artifacts.when_mem_present, names_present_sublist _⟩,
    field ?paths, field ?exclude, field ?expireIn, field ?exposeAs, field ?name, field ?reports,
    map_key_lastOfEach _ _, field ?when, rfl, ReportMethod.mem_all, ReportMethod.distinct_slots⟩
  all_goals simp

/-- A condition that is changed and changed back, a replaced report, an empty list of files, and a path
that is given twice. -/
def redeclaredReports : List Setting :=
  [.when .onFailure, .report (.file .junit "a.xml"), .path "target", .report (.cyclonedx ["sbom"]),
    .report (.coverage "jacoco" "c.xml"), .path "target", .report (.file .junit "b.xml"),
    .report (.cyclonedx []), .when .always]

theorem exports_redeclaredReports :
    (configure {} redeclaredReports).isEmpty = false ∧
    (toNode (configure {} redeclaredReports)).get? "paths" = some (.list [.str "target", .str "target"]) ∧
    (toNode (configure {} redeclaredReports)).get? "name" = none ∧
    (toNode (configure {} redeclaredReports)).get? "reports" = some (.map [(.str "junit", .str "b.xml"),
      (.str "cyclonedx", .list []),
      (.str "coverage_report",
        .map [(.str "coverage_format", .str "jacoco"), (.str "path", .str "c.xml")])]) ∧
    (configure {} [.when .onFailure, .when .always]).isEmpty = true := by
  obtain ⟨empty, -, -, paths, -, -, -, name, reports, -⟩ := exports_of_settings redeclaredReports
  obtain ⟨changedBack, -⟩ := exports_of_settings [.when .onFailure, .when .always]
  refine ⟨Bool.eq_false_iff.mpr fun none => ?_, paths.trans rfl, name.trans rfl, reports.trans rfl,
    changedBack.mpr ⟨?_, ?_⟩⟩
  · obtain ⟨w, impossible⟩ := (empty.mp none).1 (.path "target") (by decide)
    cases impossible
  · simp
  · rintro w ⟨⟩
    rfl

end Artifacts
end CiPipeline
