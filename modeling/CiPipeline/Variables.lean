/-!
# Predefined variables

The variables that the server sets for every build, by group, each as it is written in a pipeline.
The rest of the library names a variable by its group and label (`VariableGroup.reference`).
-/

namespace CiPipeline

inductive VariableGroup where
  | root
  | commit
  | pipeline
  | project
  | job
  | registry
  | mergeRequest
  | server
  | user
  deriving DecidableEq, Repr

/-- Labels and references of the variables of a group. -/
def VariableGroup.members : VariableGroup → List (String × String)
  | root =>
    [("CI", "$CI"), ("API_V4_URL", "$CI_API_V4_URL"), ("BUILDS_DIR", "$CI_BUILDS_DIR"),
      ("CONFIG_PATH", "$CI_CONFIG_PATH"), ("DEBUG_TRACE", "$CI_DEBUG_TRACE"),
      ("DEFAULT_BRANCH", "$CI_DEFAULT_BRANCH")]
  | commit =>
    [("AUTHOR", "$CI_COMMIT_AUTHOR"), ("BEFORE_SHA", "$CI_COMMIT_BEFORE_SHA"),
      ("BRANCH", "$CI_COMMIT_BRANCH"), ("TAG", "$CI_COMMIT_TAG"),
      ("MESSAGE", "$CI_COMMIT_MESSAGE"), ("TITLE", "$CI_COMMIT_TITLE"),
      ("DESCRIPTION", "$CI_COMMIT_DESCRIPTION"), ("SHA", "$CI_COMMIT_SHA"),
      ("SHORT_SHA", "$CI_COMMIT_SHORT_SHA"), ("TIMESTAMP", "$CI_COMMIT_TIMESTAMP"),
      ("REF_NAME", "$CI_COMMIT_REF_NAME"), ("REF_PROTECTED", "$CI_COMMIT_REF_PROTECTED"),
      ("REF_SLUG", "$CI_COMMIT_REF_SLUG")]
  | pipeline =>
    [("ID", "$CI_PIPELINE_ID"), ("IID", "$CI_PIPELINE_IID"), ("SOURCE", "$CI_PIPELINE_SOURCE"),
      ("TRIGGERED", "$CI_PIPELINE_TRIGGERED"), ("URL", "$CI_PIPELINE_URL"),
      ("CREATED_AT", "$CI_PIPELINE_CREATED_AT")]
  | project =>
    [("DIR", "$CI_PROJECT_DIR"), ("ID", "$CI_PROJECT_ID"), ("NAME", "$CI_PROJECT_NAME"),
      ("NAMESPACE", "$CI_PROJECT_NAMESPACE"), ("PATH", "$CI_PROJECT_PATH"),
      ("PATH_SLUG", "$CI_PROJECT_PATH_SLUG"), ("ROOT_NAMESPACE", "$CI_PROJECT_ROOT_NAMESPACE"),
      ("TITLE", "$CI_PROJECT_TITLE"), ("URL", "$CI_PROJECT_URL"),
      ("VISIBILITY", "$CI_PROJECT_VISIBILITY"), ("REPOSITORY_URL", "$CI_REPOSITORY_URL")]
  | job =>
    [("ID", "$CI_JOB_ID"), ("IMAGE", "$CI_JOB_IMAGE"), ("MANUAL", "$CI_JOB_MANUAL"),
      ("NAME", "$CI_JOB_NAME"), ("STAGE", "$CI_JOB_STAGE"), ("STATUS", "$CI_JOB_STATUS"),
      ("TOKEN", "$CI_JOB_TOKEN"), ("URL", "$CI_JOB_URL"), ("STARTED_AT", "$CI_JOB_STARTED_AT"),
      ("NODE_INDEX", "$CI_NODE_INDEX"), ("NODE_TOTAL", "$CI_NODE_TOTAL")]
  | registry =>
    [("SERVER", "$CI_REGISTRY"), ("IMAGE", "$CI_REGISTRY_IMAGE"), ("USER", "$CI_REGISTRY_USER"),
      ("PASSWORD", "$CI_REGISTRY_PASSWORD")]
  | mergeRequest =>
    [("APPROVED", "$CI_MERGE_REQUEST_APPROVED"), ("ASSIGNEES", "$CI_MERGE_REQUEST_ASSIGNEES"),
      ("ID", "$CI_MERGE_REQUEST_ID"), ("IID", "$CI_MERGE_REQUEST_IID"),
      ("LABELS", "$CI_MERGE_REQUEST_LABELS"), ("MILESTONE", "$CI_MERGE_REQUEST_MILESTONE"),
      ("TITLE", "$CI_MERGE_REQUEST_TITLE"), ("EVENT_TYPE", "$CI_MERGE_REQUEST_EVENT_TYPE"),
      ("SOURCE_BRANCH", "$CI_MERGE_REQUEST_SOURCE_BRANCH_NAME"),
      ("SOURCE_BRANCH_SHA", "$CI_MERGE_REQUEST_SOURCE_BRANCH_SHA"),
      ("TARGET_BRANCH", "$CI_MERGE_REQUEST_TARGET_BRANCH_NAME"),
      ("TARGET_BRANCH_SHA", "$CI_MERGE_REQUEST_TARGET_BRANCH_SHA")]
  | server =>
    [("HOST", "$CI_SERVER_HOST"), ("NAME", "$CI_SERVER_NAME"), ("PORT", "$CI_SERVER_PORT"),
      ("PROTOCOL", "$CI_SERVER_PROTOCOL"), ("URL", "$CI_SERVER_URL"),
      ("VERSION", "$CI_SERVER_VERSION")]
  | user =>
    [("ID", "$GITLAB_USER_ID"), ("EMAIL", "$GITLAB_USER_EMAIL"), ("LOGIN", "$GITLAB_USER_LOGIN"),
      ("NAME", "$GITLAB_USER_NAME")]

/-- Only a label of the group can be asked for. -/
def VariableGroup.reference (group : VariableGroup) (label : String)
    (known : (group.members.lookup label).isSome = true := by decide) : String :=
  (group.members.lookup label).get known

end CiPipeline
