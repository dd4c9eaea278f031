import CiPipeline.Environment
import CiPipeline.Proofs.Collection.LastOccurrence

/-!
# What an environment answers

Of the pairs that an environment was filled with only the `effective?` values count: for each name
the value of the last pair that has it, unless it is empty. Environments that agree on these give the
same answer to every `Question`, and so nothing depends on the order of different names, on values
that were replaced, or on variables that are empty in the end (`answers_by_effective`).
-/

namespace CiPipeline.Environment

/-- An environment filled with the pairs: set one after another, or taken from a table in which a
later pair had replaced an earlier one of its name. -/
inductive FilledBy (pairs : List (String × String)) : Environment → Prop where
  | chain : FilledBy pairs (ofList pairs)
  | table : FilledBy pairs ⟨(OrderedMap.ofList pairs).entries⟩

def last? (pairs : List (String × String)) (name : String) : Option String :=
  (pairs.filter (·.1 = name)).getLast?.map (·.2)

/-- The value of the last pair with the name; an empty one hides the others and counts as none. -/
def effective? (pairs : List (String × String)) (name : String) : Option String :=
  (last? pairs name).filter (· != "")

/-! ### Reading -/

theorem value?_mk (pairs : List (String × String)) (name : String) :
    value? ⟨pairs⟩ name = last? pairs name := by
  rw [value?, last?, List.getLast?_filter]
  rfl

theorem find?_name_eq_none_iff {pairs : List (String × String)} {name : String} :
    pairs.reverse.find? (·.1 = name) = none ↔ name ∉ pairs.map (·.1) := by
  simp only [List.find?_eq_none, List.mem_reverse, decide_eq_true_eq, List.mem_map, not_exists, not_and]

theorem last?_ofList (pairs : List (String × String)) (name : String) :
    last? (OrderedMap.ofList pairs).entries name = last? pairs name := by
  rw [last?, last?, List.getLast?_filter, List.getLast?_filter]
  congr 1
  cases found : (OrderedMap.ofList pairs).entries.reverse.find? (·.1 = name) with
  | some entry =>
    have named : entry.1 = name := by simpa using List.find?_some found
    have member := List.mem_reverse.mp (List.mem_of_find?_eq_some found)
    rw [← named, OrderedMap.last_ofList member]
  | none =>
    rw [find?_name_eq_none_iff, OrderedMap.keys_ofList, List.mem_eraseDups] at found
    exact (find?_name_eq_none_iff.mpr found).symm

variable {pairs other : List (String × String)} {env env' : Environment}

theorem value?_of_filledBy (filled : FilledBy pairs env) (name : String) : env.value? name = last? pairs name := by
  cases filled with
  | chain =>
    have same : ofList pairs = ⟨pairs⟩ := congrArg mk (pairs_ofList pairs)
    rw [same, value?_mk]
  | table => rw [value?_mk, last?_ofList]

theorem plainName_dollar (name : String) : plainName ("$" ++ name) = name := by
  simp [plainName]

theorem plainName_of_bare {name : String} (bare : name.toList.head? ≠ some '$') : plainName name = name := by
  unfold plainName
  split
  next rest text => simp [text] at bare
  next => rfl

theorem read?_of_filledBy (filled : FilledBy pairs env) (reference : String) :
    env.read? reference = effective? pairs (plainName reference) := by
  rw [read?, value?_of_filledBy filled, effective?]

theorem read?_of_plainName (filled : FilledBy pairs env) {reference name : String}
    (plain : plainName reference = name) : env.read? reference = effective? pairs name := by
  rw [read?_of_filledBy filled, plain]

/-! ### Questions -/

inductive Question where
  | read (reference : String)
  | isCi
  | defaultBranch
  | commitBranch
  | commitTag
  | commitSha
  | pipelineSource
  | projectPath
  | isTag
  | isMergeRequest
  | isDefaultBranch

inductive Answer where
  | value (found : Option String)
  | flag (holds : Bool)
  | branch (found : Except PipelineError String)

def answer (env : Environment) : Question → Answer
  | .read reference => .value (env.read? reference)
  | .isCi => .flag env.isCi
  | .defaultBranch => .branch env.defaultBranch
  | .commitBranch => .value env.commitBranch?
  | .commitTag => .value env.commitTag?
  | .commitSha => .value env.commitSha?
  | .pipelineSource => .value env.pipelineSource?
  | .projectPath => .value env.projectPath?
  | .isTag => .flag env.isTag
  | .isMergeRequest => .flag env.isMergeRequest
  | .isDefaultBranch => .flag env.isDefaultBranch

/-- Every answer is made of what can be read. -/
theorem answer_congr (same : ∀ reference, env.read? reference = env'.read? reference) (q : Question) :
    env.answer q = env'.answer q := by
  have branch : env.defaultBranch = env'.defaultBranch := by rw [defaultBranch, defaultBranch, same]
  have commit : env.commitBranch? = env'.commitBranch? := same _
  have tag : env.commitTag? = env'.commitTag? := same _
  have source : env.pipelineSource? = env'.pipelineSource? := same _
  cases q with
  | read reference => exact congrArg Answer.value (same reference)
  | isCi => rw [answer, answer, isCi, isCi, same]
  | defaultBranch => exact congrArg Answer.branch branch
  | commitBranch | commitTag | commitSha | pipelineSource | projectPath => exact congrArg Answer.value (same _)
  | isTag => rw [answer, answer, isTag, isTag, tag]
  | isMergeRequest => rw [answer, answer, isMergeRequest, isMergeRequest, source]
  | isDefaultBranch => rw [answer, answer, isDefaultBranch, isDefaultBranch, commit, branch]

/-- The pairs give the same answers, however environments were filled with them. -/
def SameAnswers (pairs other : List (String × String)) : Prop :=
  ∀ env env' : Environment, FilledBy pairs env → FilledBy other env' → ∀ q, env.answer q = env'.answer q

theorem sameAnswers_of_effective (agree : ∀ name, effective? pairs name = effective? other name) :
    SameAnswers pairs other := by
  intro env env' filled filled'
  refine answer_congr fun reference => ?_
  rw [read?_of_filledBy filled, read?_of_filledBy filled', agree]

theorem sameAnswers_of_last (agree : ∀ name, last? pairs name = last? other name) : SameAnswers pairs other :=
  sameAnswers_of_effective fun name => by rw [effective?, effective?, agree]

/-! ### Pairs that do not count -/

theorem last?_eq_none_iff {name : String} : last? pairs name = none ↔ name ∉ pairs.map (·.1) := by
  rw [last?, List.getLast?_filter, Option.map_eq_none_iff, find?_name_eq_none_iff]

theorem last?_append (front back : List (String × String)) (name : String) :
    last? (front ++ back) name = (last? back name).or (last? front name) := by
  rw [last?, List.filter_append, List.getLast?_append, Option.map_or]
  rfl

theorem last?_cons (pair : String × String) (pairs : List (String × String)) (name : String) :
    last? (pair :: pairs) name = (last? pairs name).or (last? [pair] name) :=
  last?_append [pair] pairs name

/-- Some pairs, but none that stands last for its name, are left out. -/
inductive WithoutReplaced : List (String × String) → List (String × String) → Prop where
  | nil : WithoutReplaced [] []
  | keep {kept pairs : List (String × String)} (pair : String × String) (rest : WithoutReplaced kept pairs) :
      WithoutReplaced (pair :: kept) (pair :: pairs)
  | drop {kept pairs : List (String × String)} {pair : String × String}
      (replaced : pair.1 ∈ pairs.map (·.1)) (rest : WithoutReplaced kept pairs) :
      WithoutReplaced kept (pair :: pairs)

theorem last?_cons_of_replaced {pair : String × String} (replaced : pair.1 ∈ pairs.map (·.1)) (name : String) :
    last? (pair :: pairs) name = last? pairs name := by
  rw [last?_cons]
  by_cases same : pair.1 = name
  · have known : last? pairs name ≠ none := fun missing => last?_eq_none_iff.mp missing (same ▸ replaced)
    obtain ⟨value, known⟩ := Option.ne_none_iff_exists'.mp known
    rw [known, Option.some_or]
  · have missing : last? [pair] name = none := last?_eq_none_iff.mpr (by simpa using Ne.symm same)
    rw [missing, Option.or_none]

theorem last?_withoutReplaced {kept : List (String × String)} (without : WithoutReplaced kept pairs)
    (name : String) : last? kept name = last? pairs name := by
  induction without with
  | nil => rfl
  | @keep kept pairs pair _ ih => rw [last?_cons pair kept, last?_cons pair pairs, ih]
  | drop replaced _ ih => rw [last?_cons_of_replaced replaced, ih]

theorem last?_filter_name (keep : String → Bool) (pairs : List (String × String)) (name : String) :
    last? (pairs.filter fun pair => keep pair.1) name = if keep name then last? pairs name else none := by
  have one : ∀ pair ∈ pairs, (decide (pair.1 = name) && keep pair.1) = (decide (pair.1 = name) && keep name) := by
    intro pair _
    by_cases named : pair.1 = name <;> simp [named]
  rw [last?, last?, List.filter_filter, List.filter_congr one]
  cases keep name <;> simp

theorem effective?_filter_name {keep : String → Bool}
    (valueless : ∀ name, keep name = false → effective? pairs name = none) (name : String) :
    effective? (pairs.filter fun pair => keep pair.1) name = effective? pairs name := by
  cases kept : keep name with
  | true => rw [effective?, last?_filter_name, if_pos kept, effective?]
  | false =>
    rw [valueless name kept, effective?, last?_filter_name, if_neg (by simp [kept])]
    rfl

/-! ### The default branch -/

theorem defaultBranch_eq_ok_iff (filled : FilledBy pairs env) {branch : String} :
    env.defaultBranch = .ok branch ↔ effective? pairs "CI_DEFAULT_BRANCH" = some branch := by
  have default : env.read? (VariableGroup.root.reference "DEFAULT_BRANCH") =
      effective? pairs "CI_DEFAULT_BRANCH" := read?_of_plainName filled (by decide)
  rw [defaultBranch, default]
  cases effective? pairs "CI_DEFAULT_BRANCH" <;> simp

theorem exists_defaultBranch_error_iff (filled : FilledBy pairs env) :
    (∃ e, env.defaultBranch = .error e) ↔ effective? pairs "CI_DEFAULT_BRANCH" = none := by
  simp only [Option.eq_none_iff_forall_ne_some, ne_eq, ← defaultBranch_eq_ok_iff filled]
  cases env.defaultBranch <;> simp

theorem isDefaultBranch_iff (filled : FilledBy pairs env) :
    env.isDefaultBranch = true ↔ ∃ branch, effective? pairs "CI_COMMIT_BRANCH" = some branch ∧
      effective? pairs "CI_DEFAULT_BRANCH" = some branch := by
  have commit : env.commitBranch? = effective? pairs "CI_COMMIT_BRANCH" :=
    read?_of_plainName filled (by decide)
  simp only [← commit, ← defaultBranch_eq_ok_iff filled]
  unfold isDefaultBranch
  cases env.commitBranch? with
  | none => simp
  | some branch => cases env.defaultBranch <;> simp [eq_comm (a := branch)]

/-- However an environment is filled with pairs, reading a name with or without a dollar sign gives
its effective value, and pairs that agree on these give the same answers: those of one name may stand
anywhere among the others, and replaced pairs and variables without a value may be left out. -/
theorem answers_by_effective :
    (∀ pairs env, FilledBy pairs env →
      (∀ name, env.read? ("$" ++ name) = effective? pairs name) ∧
      (∀ name, name.toList.head? ≠ some '$' →
        env.read? name = effective? pairs name ∧ env.read? ("$" ++ name) = env.read? name) ∧
      ((∃ e, env.defaultBranch = .error e) ↔ effective? pairs "CI_DEFAULT_BRANCH" = none) ∧
      (env.isDefaultBranch = true ↔ ∃ branch, effective? pairs "CI_COMMIT_BRANCH" = some branch ∧
        effective? pairs "CI_DEFAULT_BRANCH" = some branch)) ∧
    (∀ pairs other, (∀ name, effective? pairs name = effective? other name) → SameAnswers pairs other) ∧
    (∀ pairs other : List (String × String),
      (∀ name, pairs.filter (·.1 = name) = other.filter (·.1 = name)) → SameAnswers pairs other) ∧
    (∀ kept pairs, WithoutReplaced kept pairs → SameAnswers kept pairs) ∧
    ∀ (pairs : List (String × String)) (keep : String → Bool),
      (∀ name, keep name = false → effective? pairs name = none) →
        SameAnswers (pairs.filter fun pair => keep pair.1) pairs := by
  refine ⟨?filled, fun _ _ => sameAnswers_of_effective, ?reordered, ?replaced, ?valueless⟩
  case filled =>
    intro pairs env filled
    have dollar : ∀ name, env.read? ("$" ++ name) = effective? pairs name := fun name =>
      read?_of_plainName filled (plainName_dollar name)
    refine ⟨dollar, fun name bare => ?_, exists_defaultBranch_error_iff filled, isDefaultBranch_iff filled⟩
    have read : env.read? name = effective? pairs name := read?_of_plainName filled (plainName_of_bare bare)
    exact ⟨read, (dollar name).trans read.symm⟩
  case reordered =>
    intro pairs other same
    exact sameAnswers_of_last fun name => by rw [last?, last?, same]
  case replaced =>
    intro kept pairs without
    exact sameAnswers_of_last (last?_withoutReplaced without)
  case valueless =>
    intro pairs keep valueless
    exact sameAnswers_of_effective (effective?_filter_name valueless)

/-- A tag that is emptied again, and a branch that is replaced by the default one. -/
def repeatedVariables : List (String × String) :=
  [("CI_COMMIT_TAG", "v1"), ("CI_COMMIT_BRANCH", "dev"), ("CI_COMMIT_TAG", ""), ("CI_DEFAULT_BRANCH", "main"),
    ("CI_COMMIT_BRANCH", "main")]

theorem answers_repeatedVariables :
    FilledBy repeatedVariables (ofList repeatedVariables) ∧
      (ofList repeatedVariables).read? "CI_COMMIT_TAG" = none ∧
      (ofList repeatedVariables).isDefaultBranch = true ∧
      SameAnswers [("CI_DEFAULT_BRANCH", "main"), ("CI_COMMIT_BRANCH", "main")]
        [("CI_COMMIT_BRANCH", "main"), ("CI_DEFAULT_BRANCH", "main")] ∧
      SameAnswers (repeatedVariables.filter fun pair => pair.1 != "CI_COMMIT_TAG") repeatedVariables ∧
      SameAnswers repeatedVariables.tail.tail repeatedVariables := by
  obtain ⟨filled, -, reordered, replaced, valueless⟩ := answers_by_effective
  obtain ⟨-, bare, -, isDefault⟩ := filled repeatedVariables _ .chain
  refine ⟨.chain, (bare "CI_COMMIT_TAG" (by decide)).1.trans (by decide),
    isDefault.mpr ⟨"main", by decide, by decide⟩, reordered _ _ ?_,
    valueless _ (· != "CI_COMMIT_TAG") ?_, replaced _ _ ?_⟩
  · intro name
    by_cases default : name = "CI_DEFAULT_BRANCH"
    · rw [default]
      decide
    · simp [List.filter_cons, Ne.symm default]
  · intro name tag
    have named : name = "CI_COMMIT_TAG" := by simpa using tag
    rw [named]
    decide
  · exact .drop (by decide) (.drop (by decide) (.keep _ (.keep _ (.keep _ .nil))))

end CiPipeline.Environment
